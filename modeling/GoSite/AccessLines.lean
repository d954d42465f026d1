import GoSite.GoTimes

/-!
# Reading an access log line

The two readers of access log lines. Both search the line with regular
expressions, for the common log format first and for the key="value" format
after it. In each of these expressions a repetition is followed by something the
repeated class does not have, so that the longest run is the only one to try.
The expressions tell ASCII characters apart and nothing else: a byte of a line
counts as one character.
-/
namespace GoSite.AccessLines

open GoStrings GoTimes

/-- The leftmost match: `m` is tried at each place with the character before it. -/
@[grind]
def firstMatch {β : Type*} (m : Option Char → Text → Option β) : Option Char → Text → Option β
  | before, [] => m before []
  | before, c :: cs => (m before (c :: cs)).or (firstMatch m (some c) cs)

/-- `\s`. -/
def isGap (c : Char) : Bool := c = ' ' ∨ c = '\t' ∨ c = '\n' ∨ c = '\x0c' ∨ c = '\r'

/-- `\w`. -/
def isWord (c : Char) : Bool := c.isAlphanum ∨ c = '_'

/-- `\[([^\]]+)\]` at the beginning of a text. -/
def bracketAt : Text → Option Text
  | '[' :: rest =>
      let inner := rest.takeWhile (· ≠ ']')
      if inner ≠ [] ∧ rest.dropWhile (· ≠ ']') ≠ [] then some inner else none
  | _ => none

/-- `\bkey="(inner)"` at the beginning of a text, for a run of a class. -/
def keyAt (key : Text) (inClass : Char → Bool) (fits : Text → Bool) (before : Option Char)
    (s : Text) : Option Text :=
  let opening := key ++ ['=', '"']
  let inner := (s.drop opening.length).takeWhile inClass
  let rest := (s.drop opening.length).dropWhile inClass
  if ¬ before.any isWord ∧ opening <+: s ∧ fits inner ∧ rest.head? = some '"' then some inner
  else none

/-- `(\d+|-)` at the beginning of a text, with what follows. -/
def sizeAt : Text → Text × Text
  | '-' :: rest => (['-'], rest)
  | s => (s.takeWhile Char.isDigit, s.dropWhile Char.isDigit)

/-- `\s+(\d{3})\s+(\d+|-)\s+"` at the beginning of a text. -/
def statusAndSizeAt (s : Text) : Option (Text × Text) :=
  let code := s.dropWhile isGap
  let status := code.takeWhile Char.isDigit
  let gap := code.dropWhile Char.isDigit
  let size := sizeAt (gap.dropWhile isGap)
  if s.head?.any isGap ∧ status.length = 3 ∧ gap.head?.any isGap ∧ size.1 ≠ [] ∧
      size.2.head?.any isGap ∧ (size.2.dropWhile isGap).head? = some '"' then
    some (status, size.1)
  else none

/-- `"[^"]*"\s+(\d{3})\s+(\d+|-)\s+"` at the beginning of a text. -/
def combinedAt : Text → Option (Text × Text)
  | '"' :: rest =>
      match rest.dropWhile (· ≠ '"') with
      | _ :: after => statusAndSizeAt after
      | [] => none
  | _ => none

def notEmpty (s : Text) : Bool := s ≠ []

def timeKey : Text := "time_local".toList
def statusKey : Text := "status".toList
def bytesKey : Text := "bytes_out".toList

def nginxTimeRE (line : Text) : Option Text := firstMatch (fun _ s => bracketAt s) none line

def combinedLogRE (line : Text) : Option (Text × Text) :=
  firstMatch (fun _ s => combinedAt s) none line

/-- `\btime_local="([^"]+)"`. -/
def kvTimeRE (line : Text) : Option Text :=
  firstMatch (keyAt timeKey (· ≠ '"') notEmpty) none line

/-- `\bstatus="(\d{3})"`. -/
def kvStatusRE (line : Text) : Option Text :=
  firstMatch (keyAt statusKey Char.isDigit (·.length = 3)) none line

/-- `\bbytes_out="(\d+)"`. -/
def kvBytesOutRE (line : Text) : Option Text :=
  firstMatch (keyAt bytesKey Char.isDigit notEmpty) none line

/-- An `int` on a 64-bit platform. -/
def wrap64 (n : ℤ) : ℤ := Int.bmod n (2 ^ 64)

def FitsInt64 (n : ℤ) : Prop := -2 ^ 63 ≤ n ∧ n < 2 ^ 63

instance (n : ℤ) : Decidable (FitsInt64 n) := inferInstanceAs (Decidable (_ ∧ _))

/-- The loop of the collector's `atoi`. -/
@[grind] def atoiLoop : ℤ → Text → ℤ
  | n, [] => n
  | n, c :: cs =>
      if c < '0' ∨ '9' < c then n else atoiLoop (wrap64 (n * 10 + (c.toNat - '0'.toNat : ℕ))) cs

def atoi (s : Text) : ℤ := atoiLoop 0 s

/-- What is read from a line. -/
structure AccessLine where
  ts : Time
  status : ℤ
  bytes : ℤ
  deriving Repr, DecidableEq

/-- A time that was found and is not the zero time. -/
def timeOf (text : Option Text) : Option Time := (text.bind parseTime).filter fun t => ¬ t.isZero

/-- The time of a line: the first text in brackets, or the value of `time_local`. -/
def lineTime (line : Text) : Option Time :=
  (timeOf (nginxTimeRE line)).or (timeOf (kvTimeRE line))

def parseAccessLine (line : Text) : Option AccessLine :=
  match lineTime line with
  | none => none
  | some ts =>
      match combinedLogRE line with
      | some (status, bytes) => some ⟨ts, atoi status, if bytes = ['-'] then 0 else atoi bytes⟩
      | none => some ⟨ts, (kvStatusRE line).elim 0 atoi, (kvBytesOutRE line).elim 0 atoi⟩

/-- The match of `nginxAccessPattern`, without its first and third group. -/
structure AccessMatch where
  time : Text
  status : Text
  bytes : Text
  deriving Repr, DecidableEq

/-- A run of characters that are not blanks, and a blank. -/
def wordAt (s : Text) : Option Text :=
  if s.takeWhile (fun c => ¬ isGap c) ≠ [] then skipChar ' ' (s.dropWhile fun c => ¬ isGap c)
  else none

/-- `"([^"]*)" (\d{3}) (\d+|-)` at the beginning of a text. -/
def requestAt : Text → Option (Text × Text)
  | '"' :: rest => do
      let s ← skipChar '"' (rest.dropWhile (· ≠ '"'))
      let s ← skipChar ' ' s
      let status := s.takeWhile Char.isDigit
      let s ← skipChar ' ' (s.dropWhile Char.isDigit)
      if status.length = 3 ∧ (sizeAt s).1 ≠ [] then some (status, (sizeAt s).1) else none
  | _ => none

/-- `^(\S+) \S+ \S+ \[([^\]]+)\] "([^"]*)" (\d{3}) (\d+|-)`. -/
def nginxAccessPattern (line : Text) : Option AccessMatch := do
  let s ← wordAt line
  let s ← wordAt s
  let s ← wordAt s
  let time ← bracketAt s
  let s ← skipChar ' ' ((s.dropWhile (· ≠ ']')).drop 1)
  let (status, bytes) ← requestAt s
  some ⟨time, status, bytes⟩

/-- The fields of a log event that a line gives. -/
structure LogEvent where
  timestamp : Time
  statusCode : Option ℤ
  bytes : Option ℤ
  deriving Repr, DecidableEq

/-- `strconv.Atoi` where an error leaves the field as it was. -/
def atoiOr (old : Option ℤ) (s : Text) : Option ℤ :=
  match GoStrings.atoi s with
  | (n, none) => some n
  | (_, some _) => old

def applyAccessFields (ev : LogEvent) (line : Text) : LogEvent :=
  match nginxAccessPattern line with
  | some m =>
      ⟨(parseTime m.time).getD ev.timestamp, atoiOr ev.statusCode m.status,
        if m.bytes = ['-'] then ev.bytes else atoiOr ev.bytes m.bytes⟩
  | none =>
      ⟨((kvTimeRE line).bind parseTime).getD ev.timestamp,
        (kvStatusRE line).elim ev.statusCode (atoiOr ev.statusCode),
        (kvBytesOutRE line).elim ev.bytes (atoiOr ev.bytes)⟩

theorem wrap64_of_fits {n : ℤ} (h : FitsInt64 n) : wrap64 n = n := by
  rw [wrap64, Int.bmod_eq_of_le]
  · exact h.1
  · exact h.2

theorem atoiLoop_digitChar {d : ℕ} (hd : d < 10) (n : ℤ) (cs : Text) :
    atoiLoop n (Nat.digitChar d :: cs) = atoiLoop (wrap64 (n * 10 + d)) cs := by
  have hdigit : ∀ d < 10, ¬ (Nat.digitChar d < '0' ∨ '9' < Nat.digitChar d) ∧
      (Nat.digitChar d).toNat - '0'.toNat = d := by decide
  obtain ⟨hrange, hval⟩ := hdigit d hd
  rw [atoiLoop, if_neg hrange, hval]

theorem atoiLoop_append {cs : Text} (hcs : ∀ c ∈ cs, c.isDigit = true) (n : ℤ) (ds : Text) :
    atoiLoop n (cs ++ ds) = atoiLoop (atoiLoop n cs) ds := by
  induction cs generalizing n with
  | nil => rfl
  | cons c cs ih =>
      have hrange : ¬ (c < '0' ∨ '9' < c) := by
        have hc := hcs c List.mem_cons_self
        simp only [Char.isDigit, ge_iff_le, Bool.and_eq_true, decide_eq_true_eq] at hc
        rintro (h | h)
        · exact absurd hc.1 (UInt32.not_le.mpr h)
        · exact absurd hc.2 (UInt32.not_le.mpr h)
      rw [List.cons_append, atoiLoop, if_neg hrange, atoiLoop, if_neg hrange]
      exact ih (fun d hd => hcs d (List.mem_cons_of_mem c hd)) _

/-- The collector reads a decimal number back. -/
theorem atoi_toDigits {n : ℕ} (h : n < 2 ^ 63) : atoi (Nat.toDigits 10 n) = n := by
  unfold atoi
  induction n using Nat.strongRecOn with
  | ind n ih =>
      rw [Nat.toDigits_eq_if (by decide)]
      split_ifs with hn
      · rw [atoiLoop_digitChar hn, atoiLoop, wrap64_of_fits]
        · omega
        · constructor <;> omega
      · have hq := ih (n / 10) (by omega) (by omega)
        rw [atoiLoop_append (fun c hc => isDigit_of_mem_toDigits hc), hq,
          atoiLoop_digitChar (by omega), atoiLoop, wrap64_of_fits]
        · omega
        · constructor <;> omega

example : parseAccessLine
    "127.0.0.1 - - [14/Jun/2026:10:00:02 +0000] \"GET /api HTTP/1.1\" 404 89 \"-\" \"curl/8.0\"".toList =
      some ⟨⟨63917028002, 0⟩, 404, 89⟩ := by decide

end GoSite.AccessLines
