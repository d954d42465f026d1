import GoSite.EventStream
import GoSite.GoStrings
import GoSite.GuardedRuns

/-!
# The output stream of a job

A worker runs a job and stores what it prints; a handler polls the stored row
and sends what is new as an event stream; the browser reads the stream and calls
back for each line and for the end. The steps of the worker and of the handler
interleave in any order.
-/
namespace GoSite.JobStream

open EventStream GoStrings GuardedRuns

inductive JobStatus where
  | pending
  | running
  | ok
  | failed
  | cancelled
  deriving Repr, DecidableEq

/-- The columns of a job run that the stream reads. -/
structure JobRun where
  status : JobStatus
  output : Text
  error : Text
  deriving Repr, DecidableEq

structure CommandResult where
  stdout : Text
  stderr : Text
  exitCode : ℤ
  deriving Repr, DecidableEq

/-- Where `process` stands. -/
inductive Stage where
  | queued
  | dispatching
  | running
  | ended
  deriving Repr, DecidableEq

/-- Where `StreamSSE` stands: in its loop, between the read that found the job
over and the second read, or returned. -/
inductive StreamPhase where
  | polling
  | finishing (job : JobRun)
  | closed
  deriving Repr, DecidableEq

/-- The row, the worker with its variable `output`, and the handler with the
bytes it has sent. -/
structure JobState where
  row : JobRun
  stage : Stage
  output : Text
  lastLen : ℕ
  phase : StreamPhase
  body : Text
  deriving Repr, DecidableEq

/-- A stream opened on a job whose command waits in its output column. -/
def JobState.opened (command error : Text) : JobState :=
  ⟨⟨.pending, command, error⟩, .queued, [], 0, .polling, []⟩

/-- `strings.SplitAfter` at line feeds. -/
@[grind] def splitAfter : Text → List Text
  | [] => [[]]
  | c :: cs => if c = '\n' then [c] :: splitAfter cs else (splitAfter cs).modifyHead (c :: ·)

/-- `strings.TrimSuffix` of a line feed. -/
def trimLf (line : Text) : Text := if line.getLast? = some '\n' then line.dropLast else line

def writeSSEData (chunk : Text) : Text :=
  if chunk = [] then []
  else
    ((splitAfter (normalizeBreaks chunk)).flatMap fun line =>
      "data: ".toList ++ trimLf line ++ ['\n']) ++ ['\n']

/-- The last event of a stream. -/
def writeDone (msg : Text) : Text :=
  "event: done\ndata: ".toList ++ msg ++ "\n\n".toList

/-- The text `process` stores before it runs the command. -/
def commandLine (command : Text) : Text := "$ ".toList ++ command ++ ['\n']

/-- The output of a runner that does not stream. -/
def wholeOutput (output : Text) (res : CommandResult) : Text :=
  let out := trimSpaceChars res.stdout
  let err := trimSpaceChars res.stderr
  let output := if out ≠ [] then output ++ out else output
  if res.stderr ≠ [] then
    (if output.getLast? ≠ some '\n' ∧ output ≠ [] then output ++ ['\n'] else output) ++ err
  else output

/-- The error text of a command that did not succeed. -/
def failureMessage (res : CommandResult) (runErr : Option Text) : Text :=
  let msg := trimSpaceChars res.stderr
  match runErr with
  | some e => if msg = [] then e else msg
  | none => msg

/-- The chunk stored for a line of one of the two outputs. -/
def chunkOf (stderr : Bool) (text : Text) : Text :=
  let chunk := text ++ ['\n']
  if stderr then "[stderr] ".toList ++ chunk else chunk

inductive JobAction where
  /-- `process` up to `MarkRunningWithOutput`. -/
  | start
  /-- The answer of the `job.before_run` hooks. -/
  | dispatched (refusal : Option Text)
  /-- A line on stdout or stderr reaches `AppendOutput`. -/
  | line (stderr : Bool) (text : Text)
  /-- The command ends. -/
  | exit (res : CommandResult) (runErr : Option Text)
  /-- One turn of the loop of `StreamSSE`. -/
  | poll
  /-- The second read of a job that is over, and the last event. -/
  | finish
  deriving Repr, DecidableEq

/-- What of the stored output the handler has not sent. -/
def JobState.unsent (s : JobState) : Text := s.row.output.drop s.lastLen

/-- The write of what is new, if anything is. -/
def JobState.relay (s : JobState) : JobState :=
  if s.row.output.length > s.lastLen then
    { s with body := s.body ++ writeSSEData s.unsent, lastLen := s.row.output.length }
  else s

/-- The data of the last event. -/
def doneMessage (job : JobRun) : Text :=
  if job.status = .ok then "ok".toList
  else if job.error = [] then "failed".toList else job.error

/-- `CompleteStatus` leaves the output alone, `Complete` replaces it. -/
def finalOutput (streams : Bool) (s : JobState) (res : CommandResult) : Text :=
  if streams then s.row.output else wholeOutput s.output res

/-- One step. `streams` says whether the runner hands lines out while it runs. -/
def step (streams : Bool) (s : JobState) : JobAction → Option JobState
  | .start =>
      if s.stage = .queued then
        let command := trimSpaceChars s.row.output
        if command = [] then
          some { s with row := ⟨.failed, [], "empty command".toList⟩, stage := .ended }
        else
          some { s with
            row := { s.row with status := .running, output := commandLine command }
            stage := .dispatching
            output := commandLine command }
      else none
  | .dispatched refusal =>
      if s.stage = .dispatching then
        match refusal with
        | some err => some { s with row := ⟨.failed, s.output, err⟩, stage := .ended }
        | none => some { s with stage := .running }
      else none
  | .line stderr text =>
      if s.stage = .running ∧ streams ∧ '\n' ∉ text then
        some { s with row := { s.row with output := s.row.output ++ chunkOf stderr text } }
      else none
  | .exit res runErr =>
      if s.stage = .running then
        let output := finalOutput streams s res
        if runErr ≠ none ∨ res.exitCode ≠ 0 then
          some { s with row := ⟨.failed, output, failureMessage res runErr⟩, stage := .ended }
        else some { s with row := ⟨.ok, output, []⟩, stage := .ended }
      else none
  | .poll =>
      if s.phase = .polling then
        if s.row.status = .pending then some s
        else
          let t := s.relay
          if s.row.status = .running then some t
          else some { t with phase := .finishing s.row }
      else none
  | .finish =>
      match s.phase with
      | .finishing job =>
          let t := s.relay
          some { t with body := t.body ++ writeDone (doneMessage job), phase := .closed }
      | _ => none

/-- The calls of `openJobStream` to its handlers. -/
inductive ClientCall where
  | onLine (line : Text)
  | onDone (status : Text)
  deriving Repr, DecidableEq

/-- The parts between line feeds that are not empty. -/
def nonEmptyParts (text : Text) : List Text := (text.splitOn '\n').filter (· ≠ [])

/-- `openJobStream` over the events of a stream. It closes the stream when the
job is done. -/
@[grind] def openJobStream : List Event → List ClientCall
  | [] => []
  | event :: events =>
      if event.type = "message".toList then
        if "status=".toList <+: event.data then
          let status := event.data.drop "status=".toList.length
          if status = "done".toList ∨ status = "failed".toList ∨ status = "ok".toList then
            [.onDone status]
          else openJobStream events
        else (nonEmptyParts (crlfToLf event.data)).map .onLine ++ openJobStream events
      else if event.type = "done".toList then [.onDone event.data]
      else openJobStream events

/-- The non-empty lines of a text, carriage returns read as line breaks. -/
def nonEmptyLines (text : Text) : List Text := nonEmptyParts (normalizeBreaks text)

/-- What the browser is to be told at the end. -/
def JobRun.verdict (job : JobRun) : Text := if job.status = .ok then "ok".toList else job.error

/-- A stream that has ended called back once for each line of the stored output,
in order, and once for the end. -/
def Delivered (s : JobState) : Prop :=
  s.phase = .closed →
    openJobStream (parseEvents s.body) =
      (nonEmptyLines s.row.output).map .onLine ++ [.onDone s.row.verdict]

/-- An error text that one `data` line carries, and that is not taken for a
missing one. -/
def OneLine (msg : Text) : Prop := msg ≠ [] ∧ BreakFree msg

instance (msg : Text) : Decidable (OneLine msg) := inferInstanceAs (Decidable (_ ∧ _))

/-- No write of the handler begins with the client's own status form, and no job
ends with an error text that has line breaks or is empty. -/
def Unambiguous (s : JobState) : JobAction → Prop
  | .dispatched (some err) => OneLine err
  | .exit res runErr => (runErr ≠ none ∨ res.exitCode ≠ 0) → OneLine (failureMessage res runErr)
  | .poll => s.row.status ≠ .pending → ¬ "status=".toList <+: s.unsent
  | _ => True

instance (s : JobState) : ∀ a, Decidable (Unambiguous s a)
  | .start => .isTrue trivial
  | .dispatched none => .isTrue trivial
  | .dispatched (some _) => inferInstanceAs (Decidable (OneLine _))
  | .line _ _ => .isTrue trivial
  | .exit _ _ => inferInstanceAs (Decidable (_ → _))
  | .poll => inferInstanceAs (Decidable (_ → _))
  | .finish => .isTrue trivial

@[simp] theorem trimLf_cons_of_ne {c : Char} (h : c ≠ '\n') (line : Text) :
    trimLf (c :: line) = c :: trimLf line := by
  cases line with
  | nil => simp [trimLf, h]
  | cons d line =>
      simp only [trimLf, List.getLast?_cons_cons, List.dropLast_cons_cons]
      split_ifs <;> rfl

/-- Splitting behind the line feeds and trimming them off is splitting at them. -/
theorem map_trimLf_splitAfter (s : Text) : (splitAfter s).map trimLf = s.splitOn '\n' := by
  induction s with
  | nil => rfl
  | cons c s ih =>
      rw [splitAfter, List.splitOn_cons_eq_if_modifyHead, ← ih]
      by_cases hc : c = '\n'
      · simp [hc, trimLf]
      · rw [if_neg hc, if_neg (by simpa using hc)]
        cases splitAfter s with
        | nil => rfl
        | cons line rest => simp [hc]

/-- What `writeSSEData` writes are the lines of one event. -/
theorem writeSSEData_eq {chunk : Text} (h : chunk ≠ []) :
    writeSSEData chunk = unlines (dataLines ((normalizeBreaks chunk).splitOn '\n')) := by
  rw [writeSSEData, if_neg h, dataLines, unlines_append, ← map_trimLf_splitAfter]
  simp [unlines, List.flatMap_map]

/-- The lines of the last event. -/
def doneLines (msg : Text) : List Text :=
  ["event: ".toList ++ "done".toList, "data: ".toList ++ msg, []]

theorem writeDone_eq (msg : Text) : writeDone msg = unlines (doneLines msg) := by
  have hhead : "event: done\ndata: ".toList =
      "event: ".toList ++ "done".toList ++ '\n' :: "data: ".toList := by rfl
  have htail : "\n\n".toList = ['\n', '\n'] := by rfl
  unfold writeDone doneLines
  rw [hhead, htail]
  simp only [unlines_cons, unlines_nil, List.append_assoc, List.cons_append, List.nil_append]

theorem breakFree_dataLines {ls : List Text} (h : ∀ l ∈ ls, BreakFree l) :
    ∀ l ∈ dataLines ls, BreakFree l := by
  intro l hl
  rcases List.mem_append.mp hl with hl | hl
  · obtain ⟨m, hm, rfl⟩ := List.mem_map.mp hl
    have hline := h m hm
    exact ⟨by simpa using hline.1, by simpa using hline.2⟩
  · rw [List.mem_singleton.mp hl]
    decide

theorem breakFree_of_mem_splitOn {text line : Text}
    (h : line ∈ (normalizeBreaks text).splitOn '\n') : BreakFree line := by
  exact ⟨not_mem_of_mem_splitOn h,
    fun hcr => cr_not_mem_normalizeBreaks text (mem_of_mem_splitOn h hcr)⟩

/-- The text is empty or its last line is ended. -/
def Ended (text : Text) : Prop := text = [] ∨ ∃ t, text = t ++ ['\n']

theorem nonEmptyParts_append_lf (a b : Text) :
    nonEmptyParts (a ++ '\n' :: b) = nonEmptyParts a ++ nonEmptyParts b := by
  rw [nonEmptyParts, List.splitOn_append_cons_self, List.filter_append]
  rfl

/-- Behind an ended line the lines are counted afresh. -/
theorem nonEmptyLines_append {a : Text} (h : Ended a) (b : Text) :
    nonEmptyLines (a ++ b) = nonEmptyLines a ++ nonEmptyLines b := by
  rcases h with rfl | ⟨t, rfl⟩
  · rfl
  · obtain ⟨u, hu⟩ := exists_normalizeBreaks_lf t
    have hempty : nonEmptyParts [] = [] := rfl
    have hself := nonEmptyParts_append_lf u []
    have hboth := nonEmptyParts_append_lf u (normalizeBreaks b)
    rw [nonEmptyLines, List.append_assoc, List.singleton_append, normalizeBreaks_append_lf, hu,
      nonEmptyLines, hu, hself, hempty, List.append_nil, nonEmptyLines]
    simpa using hboth

/-- The client makes the calls when it reads the lines, and goes on behind them. -/
def Says (lines : List Text) (calls : List ClientCall) : Prop :=
  (∀ l ∈ lines, BreakFree l) ∧ ∀ rest,
    openJobStream (parseLines .clean (lines ++ rest)) =
      calls ++ openJobStream (parseLines .clean rest)

theorem says_nil : Says [] [] := ⟨by simp, fun _ => rfl⟩

theorem Says.append {lines more : List Text} {calls others : List ClientCall}
    (h : Says lines calls) (hmore : Says more others) :
    Says (lines ++ more) (calls ++ others) := by
  refine ⟨?_, fun rest => ?_⟩
  · intro l hl
    rcases List.mem_append.mp hl with hl | hl
    · exact h.1 l hl
    · exact hmore.1 l hl
  · rw [List.append_assoc, h.2, hmore.2, List.append_assoc]

theorem openJobStream_text {type data : Text} {events : List Event}
    (htype : type = "message".toList) (hdata : ¬ "status=".toList <+: data) :
    openJobStream (⟨type, data⟩ :: events) =
      (nonEmptyParts (crlfToLf data)).map .onLine ++ openJobStream events := by
  rw [openJobStream, if_pos htype, if_neg hdata]

/-- A chunk that does not begin with the status form is read line by line. -/
theorem says_chunk {chunk : Text} (h : ¬ "status=".toList <+: chunk) :
    Says (dataLines ((normalizeBreaks chunk).splitOn '\n'))
      ((nonEmptyLines chunk).map .onLine) := by
  have hstatus : ¬ "status=".toList <+: normalizeBreaks chunk := fun hpre =>
    h (prefix_of_prefix_normalizeBreaks (by decide) hpre)
  refine ⟨breakFree_dataLines (fun l hl => breakFree_of_mem_splitOn hl), fun rest => ?_⟩
  rw [parseLines_text, openJobStream_text rfl hstatus,
    crlfToLf_eq_self (cr_not_mem_normalizeBreaks chunk), nonEmptyLines]

theorem breakFree_doneLines {msg : Text} (h : BreakFree msg) :
    ∀ l ∈ doneLines msg, BreakFree l := by
  intro l hl
  simp only [doneLines, List.mem_cons, List.not_mem_nil, or_false] at hl
  rcases hl with rfl | rfl | rfl
  · decide
  · exact ⟨by simpa using h.1, by simpa using h.2⟩
  · decide

/-- The last event makes the last call. -/
theorem done_call (msg : Text) :
    openJobStream (parseLines .clean (doneLines msg)) = [.onDone msg] := by
  rw [doneLines, parseLines_type, parseLines_data]
  simp [parseLines, EventBuffer.clean, EventBuffer.dispatch, openJobStream]

/-- What of the stored output the handler has sent. -/
def JobState.sent (s : JobState) : Text := s.row.output.take s.lastLen

/-- The body is made of lines, and the client has been told the lines sent. -/
def Relayed (s : JobState) : Prop :=
  ∃ lines, s.body = unlines lines ∧ Says lines ((nonEmptyLines s.sent).map .onLine)

/-- What the worker keeps to: until it has ended, the stored output consists of
ended lines, and an error text it ends with takes one line. -/
def Stored (streams : Bool) (s : JobState) : Prop :=
  match s.stage with
  | .queued => s.row.status = .pending ∧ s.lastLen = 0
  | .dispatching => s.row.status = .running ∧ s.output = s.row.output ∧ Ended s.row.output
  | .running =>
      s.row.status = .running ∧ (streams = false → s.output = s.row.output) ∧ Ended s.row.output
  | .ended => s.row.status = .ok ∨ (s.row.status = .failed ∧ OneLine s.row.error)

/-- What the handler keeps to. -/
def Sent (s : JobState) : Prop :=
  match s.phase with
  | .polling => Ended s.sent ∧ Relayed s
  | .finishing job => s.stage = .ended ∧ job = s.row ∧ s.lastLen = s.row.output.length ∧ Relayed s
  | .closed =>
      s.stage = .ended ∧ openJobStream (parseEvents s.body) =
        (nonEmptyLines s.row.output).map .onLine ++ [.onDone s.row.verdict]

structure Faithful (streams : Bool) (s : JobState) : Prop where
  bound : s.lastLen ≤ s.row.output.length
  stored : Stored streams s
  sent : Sent s

theorem Faithful.delivered {streams : Bool} {s : JobState} (h : Faithful streams s) :
    Delivered s := by
  intro hphase
  have hsent := h.sent
  rw [Sent, hphase] at hsent
  exact hsent.2

theorem faithful_opened (streams : Bool) (command error : Text) :
    Faithful streams (.opened command error) := by
  refine ⟨Nat.zero_le _, ⟨rfl, rfl⟩, Or.inl rfl, [], rfl, ?_⟩
  have hnone : nonEmptyLines (JobState.opened command error).sent = [] := rfl
  rw [hnone]
  exact says_nil

/-- Until the worker has ended the handler is in its loop. -/
theorem Sent.polling {s : JobState} (h : Sent s) (hstage : s.stage ≠ .ended) :
    s.phase = .polling := by
  cases hphase : s.phase with
  | polling => rfl
  | finishing job =>
      rw [Sent, hphase] at h
      exact absurd h.1 hstage
  | closed =>
      rw [Sent, hphase] at h
      exact absurd h.1 hstage

/-- The worker may store what it likes behind what was sent. -/
theorem Sent.stored {s t : JobState} (h : Sent s) (hstage : s.stage ≠ .ended)
    (hphase : t.phase = s.phase) (hbody : t.body = s.body) (hsent : t.sent = s.sent) :
    Sent t := by
  have hpoll := h.polling hstage
  rw [Sent, hpoll] at h
  rw [Sent, hphase.trans hpoll]
  obtain ⟨hended, lines, hlines, hsays⟩ := h
  refine ⟨hsent ▸ hended, lines, hbody.trans hlines, ?_⟩
  rw [hsent]
  exact hsays

theorem ended_append {a t : Text} : Ended (a ++ (t ++ ['\n'])) :=
  Or.inr ⟨a ++ t, (List.append_assoc ..).symm⟩

theorem ended_commandLine (command : Text) : Ended (commandLine command) :=
  Or.inr ⟨"$ ".toList ++ command, rfl⟩

theorem exists_chunkOf (stderr : Bool) (text : Text) : ∃ t, chunkOf stderr text = t ++ ['\n'] := by
  cases stderr with
  | false => exact ⟨text, rfl⟩
  | true => exact ⟨"[stderr] ".toList ++ text, (List.append_assoc ..).symm⟩

theorem prefix_wholeOutput (output : Text) (res : CommandResult) :
    output <+: wholeOutput output res := by
  have hout : output <+:
      (if trimSpaceChars res.stdout ≠ [] then output ++ trimSpaceChars res.stdout else output) := by
    split_ifs
    · exact List.prefix_append _ _
    · exact List.prefix_rfl
  rw [wholeOutput]
  refine hout.trans ?_
  by_cases herr : res.stderr ≠ []
  · rw [if_pos herr]
    refine List.IsPrefix.trans ?_ (List.prefix_append _ _)
    split_ifs
    · exact List.prefix_append _ _
    · exact List.prefix_rfl
    · exact List.prefix_append _ _
    · exact List.prefix_rfl
  · rw [if_neg herr]

/-- What was sent stays at the beginning of an output that grows. -/
theorem take_of_prefix {a b : Text} {n : ℕ} (h : a <+: b) (hn : n ≤ a.length) :
    b.take n = a.take n := by
  obtain ⟨c, rfl⟩ := h
  exact List.take_append_of_le_length hn

/-- A step of the worker that only adds to the output. -/
theorem Faithful.grow {streams : Bool} {s t : JobState} (h : Faithful streams s)
    (hstage : s.stage ≠ .ended) (hstored : Stored streams t)
    (hgrow : s.row.output <+: t.row.output) (hlen : t.lastLen = s.lastLen)
    (hphase : t.phase = s.phase) (hbody : t.body = s.body) : Faithful streams t := by
  refine ⟨?_, hstored, h.sent.stored hstage hphase hbody ?_⟩
  · rw [hlen]
    exact h.bound.trans hgrow.length_le
  · rw [JobState.sent, hlen, take_of_prefix hgrow h.bound]
    rfl

/-- The verdict of the worker is stored in one write. -/
theorem Faithful.over {streams : Bool} {s t : JobState} (h : Faithful streams s)
    (hstage : s.stage ≠ .ended) (hended : t.stage = .ended)
    (hverdict : t.row.status = .ok ∨ (t.row.status = .failed ∧ OneLine t.row.error))
    (hgrow : s.row.output <+: t.row.output) (hlen : t.lastLen = s.lastLen)
    (hphase : t.phase = s.phase) (hbody : t.body = s.body) : Faithful streams t := by
  refine h.grow hstage ?_ hgrow hlen hphase hbody
  rw [Stored, hended]
  exact hverdict

theorem step_start {streams : Bool} {s t : JobState} (h : Faithful streams s)
    (hstep : step streams s .start = some t) : Faithful streams t := by
  simp only [step] at hstep
  split_ifs at hstep with hstage hempty
  · have hstored := h.stored
    rw [Stored, hstage] at hstored
    have hlive : s.stage ≠ .ended := by simp [hstage]
    obtain rfl := Option.some.inj hstep
    have hline : OneLine "empty command".toList := by decide
    refine ⟨?_, Or.inr ⟨rfl, hline⟩, h.sent.stored hlive rfl rfl ?_⟩
    · simp [hstored.2]
    · simp [JobState.sent, hstored.2]
  · have hstored := h.stored
    rw [Stored, hstage] at hstored
    have hlive : s.stage ≠ .ended := by simp [hstage]
    obtain rfl := Option.some.inj hstep
    refine ⟨?_, ⟨rfl, rfl, ended_commandLine _⟩, h.sent.stored hlive rfl rfl ?_⟩
    · simp [hstored.2]
    · simp [JobState.sent, hstored.2]

theorem step_dispatched {streams : Bool} {s t : JobState} {refusal : Option Text}
    (h : Faithful streams s) (hgood : Unambiguous s (.dispatched refusal))
    (hstep : step streams s (.dispatched refusal) = some t) : Faithful streams t := by
  simp only [step] at hstep
  split_ifs at hstep with hstage
  have hstored := h.stored
  rw [Stored, hstage] at hstored
  have hlive : s.stage ≠ .ended := by simp [hstage]
  cases refusal with
  | none =>
      obtain rfl := Option.some.inj hstep
      exact h.grow hlive ⟨hstored.1, fun _ => hstored.2.1, hstored.2.2⟩ List.prefix_rfl rfl rfl rfl
  | some err =>
      obtain rfl := Option.some.inj hstep
      refine h.over hlive rfl (Or.inr ⟨rfl, hgood⟩) ?_ rfl rfl rfl
      rw [hstored.2.1]

theorem step_line {streams stderr : Bool} {s t : JobState} {text : Text}
    (h : Faithful streams s) (hstep : step streams s (.line stderr text) = some t) :
    Faithful streams t := by
  simp only [step] at hstep
  split_ifs at hstep with hline
  obtain ⟨hstage, hstreams, -⟩ := hline
  have hstored := h.stored
  rw [Stored, hstage] at hstored
  have hlive : s.stage ≠ .ended := by simp [hstage]
  obtain rfl := Option.some.inj hstep
  refine h.grow hlive ?_ (List.prefix_append _ _) rfl rfl rfl
  rw [Stored, hstage]
  refine ⟨hstored.1, fun hwhole => ?_, ?_⟩
  · rw [hstreams] at hwhole
    cases hwhole
  · obtain ⟨u, hu⟩ := exists_chunkOf stderr text
    show Ended (s.row.output ++ chunkOf stderr text)
    rw [hu]
    exact ended_append

theorem step_exit {streams : Bool} {s t : JobState} {res : CommandResult} {runErr : Option Text}
    (h : Faithful streams s) (hgood : Unambiguous s (.exit res runErr))
    (hstep : step streams s (.exit res runErr) = some t) : Faithful streams t := by
  simp only [step] at hstep
  split_ifs at hstep with hstage hwrong
  all_goals
    have hstored := h.stored
    rw [Stored, hstage] at hstored
    have hlive : s.stage ≠ .ended := by simp [hstage]
    have hgrow : s.row.output <+: finalOutput streams s res := by
      cases streams with
      | true => exact List.prefix_rfl
      | false =>
          rw [← hstored.2.1 rfl]
          exact prefix_wholeOutput s.output res
    obtain rfl := Option.some.inj hstep
  · exact h.over hlive rfl (Or.inr ⟨rfl, hgood hwrong⟩) hgrow rfl rfl rfl
  · exact h.over hlive rfl (Or.inl rfl) hgrow rfl rfl rfl

/-- A write of the handler tells the client the lines that are new. -/
theorem relayed_relay {s : JobState} (hended : Ended s.sent) (h : Relayed s)
    (hbound : s.lastLen ≤ s.row.output.length) (hgood : ¬ "status=".toList <+: s.unsent) :
    Relayed s.relay ∧ s.relay.lastLen = s.row.output.length := by
  rw [JobState.relay]
  split_ifs with hnew
  · refine ⟨?_, rfl⟩
    obtain ⟨lines, hlines, hsays⟩ := h
    have hne : s.unsent ≠ [] := by
      intro hnil
      rw [JobState.unsent, List.drop_eq_nil_iff] at hnil
      omega
    refine ⟨lines ++ dataLines ((normalizeBreaks s.unsent).splitOn '\n'), ?_, ?_⟩
    · simp only [hlines, unlines_append, writeSSEData_eq hne]
    · have hall : s.sent ++ s.unsent = s.row.output := List.take_append_drop _ _
      have hsent : ({ s with
          body := s.body ++ writeSSEData s.unsent
          lastLen := s.row.output.length } : JobState).sent = s.sent ++ s.unsent := by
        rw [hall]
        exact List.take_length
      rw [hsent, nonEmptyLines_append hended, List.map_append]
      exact hsays.append (says_chunk hgood)
  · exact ⟨h, by omega⟩

@[simp] theorem relay_row (s : JobState) : s.relay.row = s.row := by
  rw [JobState.relay]
  split_ifs <;> rfl

@[simp] theorem relay_stage (s : JobState) : s.relay.stage = s.stage := by
  rw [JobState.relay]
  split_ifs <;> rfl

@[simp] theorem relay_output (s : JobState) : s.relay.output = s.output := by
  rw [JobState.relay]
  split_ifs <;> rfl

@[simp] theorem relay_phase (s : JobState) : s.relay.phase = s.phase := by
  rw [JobState.relay]
  split_ifs <;> rfl

theorem sent_of_lastLen {s : JobState} (h : s.lastLen = s.row.output.length) :
    s.sent = s.row.output := by
  rw [JobState.sent, h, List.take_length]

/-- A write of the handler changes nothing the worker keeps to. -/
theorem Stored.relay {streams : Bool} {s : JobState} (h : Stored streams s)
    (hstatus : s.row.status ≠ .pending) : Stored streams s.relay := by
  rw [Stored, relay_stage, relay_row, relay_output]
  rw [Stored] at h
  cases hstage : s.stage with
  | queued =>
      rw [hstage] at h
      exact absurd h.1 hstatus
  | dispatching | running | ended =>
      rw [hstage] at h
      exact h

theorem Stored.ended_of_running {streams : Bool} {s : JobState} (h : Stored streams s)
    (hstatus : s.row.status = .running) : Ended s.row.output := by
  rw [Stored] at h
  cases hstage : s.stage with
  | queued => simp [hstage, hstatus] at h
  | dispatching => exact (hstage ▸ h).2.2
  | running => exact (hstage ▸ h).2.2
  | ended => simp [hstage, hstatus] at h

theorem Stored.stage_ended {streams : Bool} {s : JobState} (h : Stored streams s)
    (hpending : s.row.status ≠ .pending) (hrunning : s.row.status ≠ .running) :
    s.stage = .ended := by
  rw [Stored] at h
  cases hstage : s.stage with
  | queued => simp [hstage, hpending] at h
  | dispatching => simp [hstage, hrunning] at h
  | running => simp [hstage, hrunning] at h
  | ended => rfl

theorem step_poll {streams : Bool} {s t : JobState} (h : Faithful streams s)
    (hgood : Unambiguous s .poll) (hstep : step streams s .poll = some t) :
    Faithful streams t := by
  simp only [step] at hstep
  split_ifs at hstep with hphase hpending hrunning
  · exact Option.some.inj hstep ▸ h
  · obtain rfl := Option.some.inj hstep
    have hsent := h.sent
    rw [Sent, hphase] at hsent
    obtain ⟨hrelayed, hlen⟩ := relayed_relay hsent.1 hsent.2 h.bound (hgood hpending)
    refine ⟨?_, h.stored.relay hpending, ?_⟩
    · rw [hlen, relay_row]
    · rw [Sent, relay_phase, hphase]
      refine ⟨?_, hrelayed⟩
      rw [sent_of_lastLen (by rw [hlen, relay_row]), relay_row]
      exact h.stored.ended_of_running hrunning
  · obtain rfl := Option.some.inj hstep
    have hsent := h.sent
    rw [Sent, hphase] at hsent
    obtain ⟨hrelayed, hlen⟩ := relayed_relay hsent.1 hsent.2 h.bound (hgood hpending)
    refine ⟨?_, h.stored.relay hpending, ?_⟩
    · simp only [hlen, relay_row]
      exact Nat.le_refl _
    · refine ⟨?_, (relay_row s).symm, ?_, hrelayed⟩
      · simp only [relay_stage]
        exact h.stored.stage_ended hpending hrunning
      · simp only [hlen, relay_row]

/-- What the last event says is the verdict stored in the row. -/
theorem Stored.verdict_told {streams : Bool} {s : JobState} (h : Stored streams s)
    (hstage : s.stage = .ended) :
    doneMessage s.row = s.row.verdict ∧ BreakFree s.row.verdict := by
  rw [Stored, hstage] at h
  rw [doneMessage]
  rcases h with hok | ⟨hfailed, hmsg⟩
  · simp only [JobRun.verdict, if_pos hok, true_and]
    decide
  · have hnot : s.row.status ≠ .ok := by simp [hfailed]
    simp only [JobRun.verdict, if_neg hnot, if_neg hmsg.1, true_and]
    exact hmsg.2

theorem step_finish {streams : Bool} {s t : JobState} (h : Faithful streams s)
    (hstep : step streams s .finish = some t) : Faithful streams t := by
  cases hphase : s.phase with
  | polling => simp [step, hphase] at hstep
  | closed => simp [step, hphase] at hstep
  | finishing job =>
      have hsent := h.sent
      rw [Sent, hphase] at hsent
      obtain ⟨hstage, rfl, hlen, lines, hbody, hsays⟩ := hsent
      have hquiet : s.relay = s := by
        rw [JobState.relay, if_neg]
        omega
      obtain ⟨hmsg, hline⟩ := h.stored.verdict_told hstage
      simp only [step, hphase, hquiet, hmsg, Option.some.injEq] at hstep
      obtain rfl := hstep
      refine ⟨h.bound, ?_, hstage, ?_⟩
      · have hstored := h.stored
        rw [Stored, hstage] at hstored
        rw [Stored, hstage]
        exact hstored
      · have hlines : ∀ l ∈ lines ++ doneLines s.row.verdict, BreakFree l := by
          intro l hl
          rcases List.mem_append.mp hl with hl | hl
          · exact hsays.1 l hl
          · exact breakFree_doneLines hline l hl
        simp only [hbody, writeDone_eq, ← unlines_append]
        rw [parseEvents, streamLines_unlines hlines, hsays.2, done_call, sent_of_lastLen hlen]

theorem faithful_step {streams : Bool} {s t : JobState} {a : JobAction} (h : Faithful streams s)
    (hgood : Unambiguous s a) (hstep : step streams s a = some t) : Faithful streams t := by
  cases a with
  | start => exact step_start h hstep
  | dispatched refusal => exact step_dispatched h hgood hstep
  | line stderr text => exact step_line h hstep
  | exit res runErr => exact step_exit h hgood hstep
  | poll => exact step_poll h hgood hstep
  | finish => exact step_finish h hstep

/-- Once the worker has ended, the handler comes to its end by itself. -/
theorem exists_close {streams : Bool} {s : JobState} (h : Faithful streams s)
    (hstage : s.stage = .ended) :
    ∃ as t, run (step streams) s as = some t ∧ t.phase = .closed := by
  have hfinish : ∀ u : JobState, ∀ job, u.phase = .finishing job →
      ∃ t, step streams u .finish = some t ∧ t.phase = .closed := by
    intro u job hu
    refine ⟨{ u.relay with
      body := u.relay.body ++ writeDone (doneMessage job), phase := .closed }, ?_, rfl⟩
    simp only [step, hu]
  cases hphase : s.phase with
  | closed => exact ⟨[], s, rfl, hphase⟩
  | finishing job =>
      obtain ⟨t, ht, hclosed⟩ := hfinish s job hphase
      exact ⟨[.finish], t, by simp [ht], hclosed⟩
  | polling =>
      have hstored := h.stored
      rw [Stored, hstage] at hstored
      have hpending : s.row.status ≠ .pending := by
        rcases hstored with hok | ⟨hfailed, -⟩ <;> simp [*]
      have hrunning : s.row.status ≠ .running := by
        rcases hstored with hok | ⟨hfailed, -⟩ <;> simp [*]
      have hpoll : step streams s .poll = some { s.relay with phase := .finishing s.row } := by
        simp only [step, if_pos hphase, if_neg hpending, if_neg hrunning]
      obtain ⟨t, ht, hclosed⟩ := hfinish { s.relay with phase := .finishing s.row } s.row rfl
      refine ⟨[.poll, .finish], t, ?_, hclosed⟩
      rw [run_cons, hpoll, Option.bind_some, run_cons, ht]
      rfl

/-- Whatever lines the command prints, and however the polls of the handler fall
between them, the browser is called back once for each non-empty line of the
stored output, in order, and once for the end, provided that no write of the
handler begins with the client's own status form and that the error text is one
line. The handler is never kept from its end. -/
theorem stream_faithful (streams : Bool) (command error : Text) (as : List JobAction)
    (hgood : Guarded (step streams) Unambiguous (.opened command error) as) :
    Along (step streams) Delivered (.opened command error) as ∧
      ∀ s, run (step streams) (.opened command error) as = some s → s.stage = .ended →
        ∃ bs t, run (step streams) s bs = some t ∧ t.phase = .closed := by
  have hinv := along_of_guarded (fun _ _ _ => faithful_step) (faithful_opened streams command error)
    hgood
  refine ⟨hinv.mono (fun s => Faithful.delivered), fun s hrun hstage => ?_⟩
  exact exists_close (hinv.last hrun) hstage

/-- A command that prints a blank line and one with a carriage return, and fails. -/
def demoRun : List JobAction :=
  [.start, .dispatched none, .line false "one".toList, .poll, .line true "t\rwo".toList,
    .line false [], .exit ⟨[], "gone".toList, 1⟩ none, .poll, .finish]

theorem stream_faithful_demo :
    Along (step true) Delivered (.opened "run".toList []) demoRun ∧
      ∀ s, run (step true) (.opened "run".toList []) demoRun = some s → s.stage = .ended →
        ∃ bs t, run (step true) s bs = some t ∧ t.phase = .closed :=
  stream_faithful true "run".toList [] demoRun (by decide)

/-- A line of the command that looks like the client's own status form is lost
when it comes first in its write. -/
theorem status_line_is_lost :
    ∃ s, run (step true) (.opened "run".toList [])
        [.start, .dispatched none, .poll, .line false "status=up".toList,
          .exit ⟨[], [], 0⟩ none, .poll, .finish] = some s ∧ ¬ Delivered s ∧
      nonEmptyLines s.row.output = ["$ run".toList, "status=up".toList] ∧
      openJobStream (parseEvents s.body) = [.onLine "$ run".toList, .onDone "ok".toList] := by
  refine ⟨_, rfl, ?_, ?_, ?_⟩
  · intro h
    exact absurd (h rfl) (by decide)
  · decide
  · decide

end GoSite.JobStream
