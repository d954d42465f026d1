import GoSite.AccessLines

/-!
# Access records in the main log format

The server writes a line of key="value" pairs for each request, with quotes,
backslashes and control characters escaped in the values. Both readers of such
lines search them with patterns, so what they find depends on what a client can
put into the values.
-/
namespace GoSite.AccessRecords

open AccessLines GoTimes

/-- Key and value of each pair of a line. -/
abbrev Pairs := List (Text × Text)

/-- What follows the closing quote of a pair. -/
@[grind] def tailText : Pairs → Text
  | [] => []
  | (k, v) :: rest => ' ' :: (k ++ '=' :: '"' :: (v ++ '"' :: tailText rest))

/-- A line of `log_format`: the pairs with blanks between them. -/
def lineOf (pairs : Pairs) : Text := (tailText pairs).drop 1

def hexDigit (n : ℕ) : Char := "0123456789ABCDEF".toList.getD n '0'

/-- The default escaping of a byte in a log value. -/
def escapeByte (b : UInt8) : Text :=
  if b = 34 ∨ b = 92 ∨ b < 32 ∨ 126 < b then
    ['\\', 'x', hexDigit (b.toNat / 16), hexDigit (b.toNat % 16)]
  else [Char.ofNat b.toNat]

/-- A value as it is written. A variable that is not set is a dash. -/
def escape : Option (List UInt8) → Text
  | none => ['-']
  | some bytes => bytes.flatMap escapeByte

/-- An address of a peer. -/
structure Address where
  text : Text
  plain : ∀ c ∈ text, c.isAlphanum ∨ c = '.' ∨ c = ':'

/-- The variables of the main log format. -/
structure AccessRecord where
  remoteAddr : Address
  realipRemoteAddr : Address
  remoteUser : Option (List UInt8)
  timeLocal : LocalTime
  status : ℕ
  bytesSent : ℕ
  upstreamBytesReceived : Option (List UInt8)
  httpReferer : Option (List UInt8)
  httpUserAgent : Option (List UInt8)
  httpXForwardedFor : Option (List UInt8)
  queryString : Option (List UInt8)
  uri : Option (List UInt8)
  requestMethod : Option (List UInt8)
  upstreamResponseTime : Option (List UInt8)
  requestTime : Option (List UInt8)
  sentHttpContentType : Option (List UInt8)
  status_lt : status < 1000
  bytesSent_lt : bytesSent < 2 ^ 63

/-- `$status`. -/
def pad3 (n : ℕ) : Text := Nat.digitChar (n / 100) :: pad2 (n % 100)

/-- The pairs after the time, the status and the size. -/
def AccessRecord.laterPairs (r : AccessRecord) : Pairs :=
  [("bytes_in".toList, escape r.upstreamBytesReceived),
    ("http_referer".toList, escape r.httpReferer),
    ("http_user_agent".toList, escape r.httpUserAgent),
    ("http_x_forwarded_for".toList, escape r.httpXForwardedFor),
    ("uri_query".toList, escape r.queryString),
    ("uri_path".toList, escape r.uri),
    ("http_method".toList, escape r.requestMethod),
    ("response_time".toList, escape r.upstreamResponseTime),
    ("request_time".toList, escape r.requestTime),
    ("category".toList, escape r.sentHttpContentType)]

/-- `log_format main`. -/
def AccessRecord.pairs (r : AccessRecord) : Pairs :=
  ("src".toList, r.remoteAddr.text) :: ("src_ip".toList, r.realipRemoteAddr.text) ::
    ("user".toList, escape r.remoteUser) :: (timeKey, r.timeLocal.toText) ::
    (statusKey, pad3 r.status) :: (bytesKey, Nat.toDigits 10 r.bytesSent) :: r.laterPairs

def AccessRecord.line (r : AccessRecord) : Text := lineOf r.pairs

/-- What the collector is to read from a record. -/
def AccessRecord.own (r : AccessRecord) : AccessLine :=
  ⟨r.timeLocal.instant, r.status, r.bytesSent⟩

/-- What a log event is to have of a record. -/
def AccessRecord.event (r : AccessRecord) : LogEvent :=
  ⟨r.timeLocal.instant, some r.status, some r.bytesSent⟩

/-- Both readers return the record's own time, status and bytes. -/
def AccessRecord.ReadBack (r : AccessRecord) : Prop :=
  parseAccessLine r.line = some r.own ∧ ∀ ev, applyAccessFields ev r.line = r.event

/-- A value that reads like the opening of a pair: it ends with the key and an
equals sign, and the key is not the end of a longer word. -/
@[grind] def endsWithKey (key : Text) : Option Char → Text → Bool
  | _, [] => false
  | before, c :: cs =>
      (c :: cs = key ++ ['='] ∧ ¬ before.any isWord) ∨ endsWithKey key (some c) cs

/-- Status and size in a value that consists of the two between blanks. -/
def combinedValue (value : Text) : Option (Text × Text) := statusAndSizeAt (value ++ ['"'])

/-- The values that stand between the quotes of the combined log format. -/
def AccessRecord.steering (r : AccessRecord) : Option (Text × Text) :=
  (r.pairs.tail.map Prod.snd).findSome? combinedValue

/-- No value steers a reader: the user name does not end with the time key, no
text in brackets takes the time's place, no value takes the place of status and
size, and the line does not read like one of the common log format. -/
structure AccessRecord.Unsteered (r : AccessRecord) : Prop where
  user : endsWithKey timeKey (some '"') (escape r.remoteUser) = false
  time : ∀ t, timeOf (nginxTimeRE r.line) = some t → t = r.timeLocal.instant
  size : ∀ status bytes, r.steering = some (status, bytes) →
    atoi status = r.status ∧ (if bytes = ['-'] then 0 else atoi bytes) = r.bytesSent
  shape : nginxAccessPattern r.line = none

/-- A match further on is found where nothing matches before it. -/
theorem firstMatch_append {β : Type*} {m : Option Char → Text → Option β} {seg rest : Text}
    (before : Option Char)
    (h : ∀ b pre c suf, seg = pre ++ c :: suf → m b (c :: suf ++ rest) = none) :
    firstMatch m before (seg ++ rest) = firstMatch m (seg.getLast?.or before) rest := by
  induction seg generalizing before with
  | nil => rfl
  | cons c seg ih =>
      have hnone : m before (c :: (seg ++ rest)) = none := h before [] c seg rfl
      have hlast : (c :: seg).getLast?.or before = seg.getLast?.or (some c) := by
        cases seg with
        | nil => rfl
        | cons d seg => rw [List.getLast?_cons_cons, List.getLast?_eq_some_getLast (by simp)]; rfl
      rw [List.cons_append, firstMatch, hnone, Option.none_or, hlast]
      exact ih (some c) (fun b pre d suf heq => h b (c :: pre) d suf (by rw [heq]; rfl))

theorem takeWhile_quote {p : Char → Bool} (hp : p '"' = false) (v rest : Text) :
    (v ++ '"' :: rest).takeWhile p = v.takeWhile p := by
  induction v with
  | nil => simp [hp]
  | cons c v ih =>
      rw [List.cons_append, List.takeWhile_cons, List.takeWhile_cons, ih]

theorem dropWhile_quote {p : Char → Bool} (hp : p '"' = false) (v rest : Text) :
    (v ++ '"' :: rest).dropWhile p = v.dropWhile p ++ '"' :: rest := by
  induction v with
  | nil => simp [hp]
  | cons c v ih =>
      rw [List.cons_append, List.dropWhile_cons, List.dropWhile_cons, ih]
      split_ifs <;> rfl

theorem quote_not_mem_dropWhile {p : Char → Bool} {v : Text} (h : '"' ∉ v) :
    '"' ∉ v.dropWhile p :=
  fun hm => h ((List.dropWhile_suffix p).subset hm)

/-- The next character is the closing quote if nothing of the value is left. -/
theorem head?_quote {v : Text} (h : '"' ∉ v) (rest : Text) :
    (v ++ '"' :: rest).head? = some '"' ↔ v = [] := by
  cases v with
  | nil => simp
  | cons c v =>
      have hc : c ≠ '"' := fun heq => h (by simp [heq])
      simp [hc]

/-- An opening lies in front of a quote if it ends the text before it. -/
theorem opening_isPrefix {key t rest : Text} (hkey : '"' ∉ key) (ht : '"' ∉ t) :
    key ++ ['=', '"'] <+: t ++ '"' :: rest ↔ t = key ++ ['='] := by
  constructor
  · rintro ⟨u, hu⟩
    have hcut := congrArg (List.takeWhile (· ≠ '"')) hu
    have hlhs : key ++ ['=', '"'] ++ u = (key ++ ['=']) ++ '"' :: u := by simp
    have hall : ∀ s : Text, '"' ∉ s → s.takeWhile (· ≠ '"') = s := by
      intro s hs
      rw [List.takeWhile_eq_self_iff]
      intro c hc
      exact decide_eq_true (fun heq => hs (heq ▸ hc))
    rw [hlhs, takeWhile_quote (by decide), takeWhile_quote (by decide),
      hall _ (by simp [hkey]), hall _ ht] at hcut
    exact hcut.symm
  · rintro rfl
    exact ⟨rest, by simp⟩

/-- The value behind an opening, if it is a run of the class that fits. -/
def valueAt (inClass : Char → Bool) (fits : Text → Bool) (s : Text) : Option Text :=
  if fits (s.takeWhile inClass) ∧ (s.dropWhile inClass).head? = some '"' then
    some (s.takeWhile inClass)
  else none

theorem keyAt_quote {key : Text} {inClass : Char → Bool} {fits : Text → Bool}
    (hkey : '"' ∉ key) (before : Option Char) {t : Text} (ht : '"' ∉ t) (rest : Text) :
    keyAt key inClass fits before (t ++ '"' :: rest) =
      if t = key ++ ['='] ∧ ¬ before.any isWord then valueAt inClass fits rest else none := by
  rw [keyAt, valueAt]
  simp only [opening_isPrefix hkey ht]
  by_cases hopen : t = key ++ ['=']
  · have hdrop : (t ++ '"' :: rest).drop (key ++ ['=', '"']).length = rest := by
      rw [hopen]
      simp
    rw [hdrop]
    by_cases hword : before.any isWord = true
    · simp [hword]
    · simp [hword, hopen]
  · simp [hopen]

/-- Between two quotes a key is found where the text ends with it. -/
theorem firstMatch_keyAt {key : Text} {inClass : Char → Bool} {fits : Text → Bool}
    (hkey : '"' ∉ key) (before : Option Char) {t : Text} (ht : '"' ∉ t) (rest : Text) :
    firstMatch (keyAt key inClass fits) before (t ++ '"' :: rest) =
      (if endsWithKey key before t then valueAt inClass fits rest else none).or
        (firstMatch (keyAt key inClass fits) (some '"') rest) := by
  induction t generalizing before with
  | nil =>
      have hat := @keyAt_quote key inClass fits hkey before _ ht rest
      rw [List.nil_append] at hat ⊢
      rw [firstMatch, hat]
      simp [endsWithKey]
  | cons c t ih =>
      have hat := @keyAt_quote key inClass fits hkey before _ ht rest
      have ht' : '"' ∉ t := fun hm => ht (List.mem_cons_of_mem c hm)
      rw [List.cons_append] at hat ⊢
      rw [firstMatch, hat, ih (some c) ht', endsWithKey]
      by_cases hhere : c :: t = key ++ ['='] ∧ ¬ before.any isWord
      · rw [if_pos hhere]
        have hends : decide ((c :: t = key ++ ['='] ∧ ¬ before.any isWord) ∨
            endsWithKey key (some c) t = true) = true := decide_eq_true (Or.inl hhere)
        rw [hends, if_pos rfl]
        split_ifs <;> cases valueAt inClass fits rest <;> rfl
      · rw [if_neg hhere, Option.none_or]
        simp only [hhere, false_or, Bool.decide_eq_true]

/-- A key of a pair: a word that does not begin with a digit. -/
def IsKey (k : Text) : Prop :=
  k ≠ [] ∧ (∀ c ∈ k, isWord c = true) ∧ k.head?.any Char.isDigit = false

instance (k : Text) : Decidable (IsKey k) := inferInstanceAs (Decidable (_ ∧ _ ∧ _))

theorem IsKey.quote_not_mem {k : Text} (h : IsKey k) : '"' ∉ k := fun hm =>
  absurd (h.2.1 _ hm) (by decide)

theorem IsKey.not_mem {k : Text} (h : IsKey k) {c : Char} (hc : isWord c = false) : c ∉ k := by
  intro hm
  have hword := h.2.1 c hm
  rw [hc] at hword
  cases hword

theorem endsWithKey_inside {key : Text} (hkey : IsKey key) (k : Text)
    (hk : ∀ c ∈ k, isWord c = true) {before : Char} (hbefore : isWord before = true) :
    endsWithKey key (some before) (k ++ ['=']) = false := by
  induction k generalizing before with
  | nil =>
      have hne : ['='] ≠ key ++ ['='] := by
        intro h
        exact hkey.1 (by simpa using h.symm)
      simp [endsWithKey, hbefore]
  | cons c k ih =>
      have hrest := ih (fun d hd => hk d (List.mem_cons_of_mem c hd)) (hk c List.mem_cons_self)
      rw [List.cons_append, endsWithKey, hrest]
      simp [hbefore]

/-- A pair has the key it is searched for, or it does not matter what it ends with. -/
theorem endsWithKey_key {key k : Text} (hkey : IsKey key) (hk : IsKey k) {before : Option Char}
    (hbefore : before.any isWord = false) :
    endsWithKey key before (k ++ ['=']) = decide (k = key) := by
  cases k with
  | nil => exact absurd rfl hk.1
  | cons c k =>
      have hrest := endsWithKey_inside hkey k (fun d hd => hk.2.1 d (List.mem_cons_of_mem c hd))
        (hk.2.1 c List.mem_cons_self)
      have hsame : c :: (k ++ ['=']) = key ++ ['='] ↔ c :: k = key := by
        rw [← List.cons_append]
        exact List.append_left_inj ['=']
      rw [List.cons_append, endsWithKey, hrest]
      simp [hbefore, hsame]

theorem endsWithKey_blank {key k : Text} (hkey : IsKey key) (hk : IsKey k)
    (before : Option Char) :
    endsWithKey key before (' ' :: (k ++ ['='])) = decide (k = key) := by
  have hne : ' ' :: (k ++ ['=']) ≠ key ++ ['='] := by
    intro h
    have hmem : ' ' ∈ key ++ ['='] := h ▸ List.mem_cons_self
    exact hkey.not_mem (by decide : isWord ' ' = false) (by simpa using hmem)
  rw [endsWithKey, endsWithKey_key hkey hk (by decide)]
  simp [hne]

theorem endsWithKey_of_not_mem {key : Text} (before : Option Char) {v : Text} (h : '=' ∉ v) :
    endsWithKey key before v = false := by
  induction v generalizing before with
  | nil => rfl
  | cons c v ih =>
      have hne : c :: v ≠ key ++ ['='] := fun heq => h (heq ▸ by simp)
      rw [endsWithKey, ih (some c) (fun hm => h (List.mem_cons_of_mem c hm))]
      simp [hne]

/-- The value of a pair, if it is a run of the class that fits. -/
def runValue (inClass : Char → Bool) (fits : Text → Bool) (v : Text) : Option Text :=
  if fits (v.takeWhile inClass) ∧ v.dropWhile inClass = [] then some (v.takeWhile inClass) else none

theorem valueAt_value {inClass : Char → Bool} {fits : Text → Bool} (hclass : inClass '"' = false)
    {v : Text} (hv : '"' ∉ v) (rest : Text) :
    valueAt inClass fits (v ++ '"' :: rest) = runValue inClass fits v := by
  simp only [valueAt, runValue, takeWhile_quote hclass, dropWhile_quote hclass,
    head?_quote (quote_not_mem_dropWhile hv)]

theorem runValue_of_all {inClass : Char → Bool} {fits : Text → Bool} {v : Text}
    (hall : ∀ c ∈ v, inClass c = true) (hfits : fits v = true) :
    runValue inClass fits v = some v := by
  have htake : v.takeWhile inClass = v := List.takeWhile_eq_self_iff.mpr hall
  have hdrop : v.dropWhile inClass = [] := List.dropWhile_eq_nil_iff.mpr hall
  rw [runValue, htake, hdrop, if_pos ⟨hfits, rfl⟩]

/-- Pairs as the server writes them. -/
def WellFormed (pairs : Pairs) : Prop := ∀ p ∈ pairs, IsKey p.1 ∧ '"' ∉ p.2

section KeySearch

variable {key : Text} {inClass : Char → Bool} {fits : Text → Bool}

/-- A key is searched for in the pairs one after the other: in the key of a
pair, and where its value ends like one. -/
theorem firstMatch_pair (hkey : IsKey key) (hclass : inClass '"' = false) {k v : Text}
    (hk : IsKey k) (hv : '"' ∉ v) {before : Option Char} (hbefore : before.any isWord = false)
    (rest : Text) :
    firstMatch (keyAt key inClass fits) before (k ++ '=' :: '"' :: (v ++ '"' :: rest)) =
      (if k = key then runValue inClass fits v else none).or
        ((if endsWithKey key (some '"') v then valueAt inClass fits rest else none).or
          (firstMatch (keyAt key inClass fits) (some '"') rest)) := by
  have hsplit : k ++ '=' :: '"' :: (v ++ '"' :: rest) = (k ++ ['=']) ++ '"' :: (v ++ '"' :: rest) := by
    simp
  have hquote : '"' ∉ k ++ ['='] := by simp [hk.quote_not_mem]
  rw [hsplit, firstMatch_keyAt hkey.quote_not_mem before hquote, endsWithKey_key hkey hk hbefore,
    firstMatch_keyAt hkey.quote_not_mem _ hv, valueAt_value hclass hv]
  simp only [decide_eq_true_eq]

theorem firstMatch_tail_cons (hkey : IsKey key) (hclass : inClass '"' = false) {k v : Text}
    (hk : IsKey k) (hv : '"' ∉ v) (before : Option Char) (rest : Pairs) :
    firstMatch (keyAt key inClass fits) before (tailText ((k, v) :: rest)) =
      (if k = key then runValue inClass fits v else none).or
        ((if endsWithKey key (some '"') v then valueAt inClass fits (tailText rest) else none).or
          (firstMatch (keyAt key inClass fits) (some '"') (tailText rest))) := by
  have hsplit : tailText ((k, v) :: rest) =
      (' ' :: (k ++ ['='])) ++ '"' :: (v ++ '"' :: tailText rest) := by
    simp [tailText]
  have hquote : '"' ∉ ' ' :: (k ++ ['=']) := by simp [hk.quote_not_mem]
  rw [hsplit, firstMatch_keyAt hkey.quote_not_mem before hquote, endsWithKey_blank hkey hk,
    firstMatch_keyAt hkey.quote_not_mem _ hv, valueAt_value hclass hv]
  simp only [decide_eq_true_eq]

theorem firstMatch_nil (hkey : IsKey key) (before : Option Char) :
    firstMatch (keyAt key inClass fits) before [] = none := by
  have hopen : ¬ key ++ ['=', '"'] <+: [] := by simp
  rw [firstMatch, keyAt, if_neg]
  exact fun h => hopen h.2.1

end KeySearch

/-- What follows a closing quote does not begin with a digit. -/
theorem valueAt_tail {fits : Text → Bool} (hfits : fits [] = false) (pairs : Pairs) :
    valueAt Char.isDigit fits (tailText pairs) = none := by
  have hnone : (tailText pairs).takeWhile Char.isDigit = [] := by
    cases pairs with
    | nil => rfl
    | cons p rest => rfl
  rw [valueAt, hnone, hfits]
  simp

/-- A key with a number is found in the pair of that key and nowhere else. -/
theorem firstMatch_digits {key : Text} {fits : Text → Bool} (hkey : IsKey key)
    (hfits : fits [] = false) {pairs : Pairs} (hpairs : WellFormed pairs) (before : Option Char) :
    firstMatch (keyAt key Char.isDigit fits) before (tailText pairs) =
      pairs.findSome? fun p => if p.1 = key then runValue Char.isDigit fits p.2 else none := by
  induction pairs generalizing before with
  | nil => exact firstMatch_nil hkey before
  | cons p rest ih =>
      obtain ⟨hk, hv⟩ := hpairs p List.mem_cons_self
      have hrest : WellFormed rest := fun q hq => hpairs q (List.mem_cons_of_mem p hq)
      rw [firstMatch_tail_cons hkey (by decide) hk hv, valueAt_tail hfits, ih hrest, ite_self,
        Option.none_or, List.findSome?_cons]
      cases (if p.1 = key then runValue Char.isDigit fits p.2 else none) <;> rfl

theorem lineOf_cons (k v : Text) (rest : Pairs) :
    lineOf ((k, v) :: rest) = k ++ '=' :: '"' :: (v ++ '"' :: tailText rest) := rfl

theorem firstMatch_digits_line {key : Text} {fits : Text → Bool} (hkey : IsKey key)
    (hfits : fits [] = false) {pairs : Pairs} (hpairs : WellFormed pairs) (hne : pairs ≠ []) :
    firstMatch (keyAt key Char.isDigit fits) none (lineOf pairs) =
      pairs.findSome? fun p => if p.1 = key then runValue Char.isDigit fits p.2 else none := by
  cases pairs with
  | nil => exact absurd rfl hne
  | cons p rest =>
      obtain ⟨hk, hv⟩ := hpairs p List.mem_cons_self
      have hrest : WellFormed rest := fun q hq => hpairs q (List.mem_cons_of_mem p hq)
      rw [lineOf_cons, firstMatch_pair hkey (by decide) hk hv (by decide), valueAt_tail hfits,
        firstMatch_digits hkey hfits hrest, ite_self, Option.none_or, List.findSome?_cons]
      cases (if p.1 = key then runValue Char.isDigit fits p.2 else none) <;> rfl

theorem sizeAt_quote (v rest : Text) :
    sizeAt (v ++ '"' :: rest) = ((sizeAt v).1, (sizeAt v).2 ++ '"' :: rest) := by
  cases v with
  | nil => rfl
  | cons c v =>
      by_cases hc : c = '-'
      · subst hc
        rfl
      · have hdash : ∀ s : Text, sizeAt (c :: s) =
            ((c :: s).takeWhile Char.isDigit, (c :: s).dropWhile Char.isDigit) := by
          intro s
          rw [sizeAt]
          rintro t ⟨⟩
          exact hc rfl
        rw [List.cons_append, hdash, hdash, ← List.cons_append, takeWhile_quote (by decide),
          dropWhile_quote (by decide)]

theorem quote_not_mem_sizeAt {v : Text} (h : '"' ∉ v) : '"' ∉ (sizeAt v).2 := by
  cases v with
  | nil => simp [sizeAt]
  | cons c v =>
      by_cases hc : c = '-'
      · subst hc
        exact fun hm => h (List.mem_cons_of_mem _ hm)
      · rw [sizeAt]
        · exact quote_not_mem_dropWhile h
        · rintro t ⟨⟩
          exact hc rfl

theorem head?_any_gap (v rest : Text) :
    (v ++ '"' :: rest).head?.any isGap = v.head?.any isGap := by
  cases v with
  | nil => rfl
  | cons c v => rfl

/-- Status and size between two quotes do not depend on what comes after. -/
theorem statusAndSizeAt_value {v : Text} (hv : '"' ∉ v) (rest : Text) :
    statusAndSizeAt (v ++ '"' :: rest) = combinedValue v := by
  have hafter : ∀ rest, statusAndSizeAt (v ++ '"' :: rest) =
      if v.head?.any isGap ∧ ((v.dropWhile isGap).takeWhile Char.isDigit).length = 3 ∧
          ((v.dropWhile isGap).dropWhile Char.isDigit).head?.any isGap ∧
          (sizeAt (((v.dropWhile isGap).dropWhile Char.isDigit).dropWhile isGap)).1 ≠ [] ∧
          (sizeAt (((v.dropWhile isGap).dropWhile Char.isDigit).dropWhile isGap)).2.head?.any
            isGap ∧
          (sizeAt (((v.dropWhile isGap).dropWhile Char.isDigit).dropWhile isGap)).2.dropWhile
            isGap = [] then
        some ((v.dropWhile isGap).takeWhile Char.isDigit,
          (sizeAt (((v.dropWhile isGap).dropWhile Char.isDigit).dropWhile isGap)).1)
      else none := by
    intro rest
    have hquote := quote_not_mem_dropWhile (p := isGap) (quote_not_mem_sizeAt
      (quote_not_mem_dropWhile (p := isGap) (quote_not_mem_dropWhile (p := Char.isDigit)
        (quote_not_mem_dropWhile (p := isGap) hv))))
    simp only [statusAndSizeAt, dropWhile_quote (by decide : isGap '"' = false),
      dropWhile_quote (by decide : Char.isDigit '"' = false),
      takeWhile_quote (by decide : Char.isDigit '"' = false), head?_any_gap, sizeAt_quote,
      head?_quote hquote]
  rw [hafter rest, combinedValue, hafter []]

/-- What follows a closing quote is no status and size. -/
theorem statusAndSizeAt_tail {pairs : Pairs} (h : WellFormed pairs) :
    statusAndSizeAt (tailText pairs) = none := by
  cases pairs with
  | nil => rfl
  | cons p rest =>
      obtain ⟨hk, -⟩ := h p List.mem_cons_self
      cases hkey : p.1 with
      | nil => exact absurd hkey hk.1
      | cons c k =>
          have hgap : isGap c = false := by
            have hword := hk.2.1 c (hkey ▸ List.mem_cons_self)
            by_contra hgap
            simp only [Bool.not_eq_false, isGap, decide_eq_true_eq] at hgap
            rcases hgap with rfl | rfl | rfl | rfl | rfl <;> exact absurd hword (by decide)
          have hdigit : c.isDigit = false := by simpa [hkey] using hk.2.2
          have hcode : (tailText (p :: rest)).dropWhile isGap =
              c :: (k ++ '=' :: '"' :: (p.2 ++ '"' :: tailText rest)) := by
            have hblank : isGap ' ' = true := by decide
            obtain ⟨key, v⟩ := p
            simp only at hkey
            subst hkey
            simp [tailText, List.dropWhile_cons, hgap, hblank]
          simp [statusAndSizeAt, hcode, hdigit]

theorem combinedAt_of_ne {c : Char} (h : c ≠ '"') (s : Text) : combinedAt (c :: s) = none := by
  rw [combinedAt]
  rintro t ⟨⟩
  exact h rfl

theorem combinedAt_quote {t : Text} (ht : '"' ∉ t) (rest : Text) :
    combinedAt ('"' :: (t ++ '"' :: rest)) = statusAndSizeAt rest := by
  have hdrop : (t ++ '"' :: rest).dropWhile (· ≠ '"') = '"' :: rest := by
    rw [dropWhile_quote (by decide), List.dropWhile_eq_nil_iff.mpr]
    · rfl
    · intro c hc
      exact decide_eq_true (fun heq => ht (heq ▸ hc))
  rw [combinedAt, hdrop]

/-- Without a quote there is no match. -/
theorem firstMatch_combined_skip {t : Text} (ht : '"' ∉ t) (before : Option Char) (rest : Text) :
    firstMatch (fun _ s => combinedAt s) before (t ++ rest) =
      firstMatch (fun _ s => combinedAt s) (t.getLast?.or before) rest := by
  refine firstMatch_append before ?_
  intro b pre c suf heq
  refine combinedAt_of_ne ?_ _
  rintro rfl
  exact ht (heq ▸ by simp)

/-- From a closing quote on the values are tried one after the other. -/
theorem firstMatch_combined {pairs : Pairs} (h : WellFormed pairs) (before : Option Char) :
    firstMatch (fun _ s => combinedAt s) before ('"' :: tailText pairs) =
      (pairs.map Prod.snd).findSome? combinedValue := by
  induction pairs generalizing before with
  | nil => rfl
  | cons p rest ih =>
      obtain ⟨hk, hv⟩ := h p List.mem_cons_self
      have hrest : WellFormed rest := fun q hq => h q (List.mem_cons_of_mem p hq)
      have hsep : '"' ∉ ' ' :: (p.1 ++ ['=']) := by simp [hk.quote_not_mem]
      have hsplit : tailText (p :: rest) =
          (' ' :: (p.1 ++ ['='])) ++ '"' :: (p.2 ++ '"' :: tailText rest) := by
        simp [tailText]
      rw [firstMatch, hsplit, combinedAt_quote hsep, statusAndSizeAt_value hv,
        firstMatch_combined_skip hsep, firstMatch, combinedAt_quote hv, statusAndSizeAt_tail hrest,
        Option.none_or, firstMatch_combined_skip hv, ih hrest, List.map_cons, List.findSome?_cons]
      cases combinedValue p.2 <;> rfl

/-- The patterns of the combined format see the values behind the first one. -/
theorem combinedLogRE_line {pairs : Pairs} (h : WellFormed pairs) :
    combinedLogRE (lineOf pairs) = (pairs.tail.map Prod.snd).findSome? combinedValue := by
  cases pairs with
  | nil => rfl
  | cons p rest =>
      obtain ⟨hk, hv⟩ := h p List.mem_cons_self
      have hrest : WellFormed rest := fun q hq => h q (List.mem_cons_of_mem p hq)
      have hsep : '"' ∉ p.1 ++ ['='] := by simp [hk.quote_not_mem]
      have hsplit : lineOf (p :: rest) = (p.1 ++ ['=']) ++ '"' :: (p.2 ++ '"' :: tailText rest) := by
        rw [lineOf_cons]
        simp
      rw [combinedLogRE, hsplit, firstMatch_combined_skip hsep, firstMatch, combinedAt_quote hv,
        statusAndSizeAt_tail hrest, Option.none_or, firstMatch_combined_skip hv,
        firstMatch_combined hrest, List.tail_cons]

theorem escapeByte_plain (b : UInt8) :
    '"' ∉ escapeByte b ∧ ∀ c ∈ escapeByte b, isGap c = true → c = ' ' := by
  have hall : ∀ n < 256, '"' ∉ escapeByte (UInt8.ofNat n) ∧
      ∀ c ∈ escapeByte (UInt8.ofNat n), isGap c = true → c = ' ' := by
    set_option maxRecDepth 20000 in
    decide
  have hb := hall b.toNat (UInt8.toNat_lt b)
  rwa [UInt8.ofNat_toNat] at hb

theorem quote_not_mem_escape (v : Option (List UInt8)) : '"' ∉ escape v := by
  cases v with
  | none => decide
  | some bytes =>
      intro hm
      obtain ⟨b, -, hb⟩ := List.mem_flatMap.mp hm
      exact (escapeByte_plain b).1 hb

/-- The only white space a value has are blanks. -/
theorem eq_blank_of_mem_escape {v : Option (List UInt8)} {c : Char} (hc : c ∈ escape v)
    (hgap : isGap c = true) : c = ' ' := by
  cases v with
  | none =>
      rw [escape, List.mem_singleton] at hc
      subst hc
      exact absurd hgap (by decide)
  | some bytes =>
      obtain ⟨b, -, hb⟩ := List.mem_flatMap.mp hc
      exact (escapeByte_plain b).2 c hb hgap

theorem Address.not_mem (a : Address) {c : Char} (hc : ¬ (c.isAlphanum ∨ c = '.' ∨ c = ':')) :
    c ∉ a.text := fun hm => hc (a.plain c hm)

theorem toText_quote (t : LocalTime) : '"' ∉ t.toText :=
  quote_not_mem_of_parseTime (parseTime_toText t)

theorem isDigit_digitChar : ∀ d < 10, (Nat.digitChar d).isDigit = true := by decide

theorem isDigit_of_mem_pad3 {n : ℕ} (h : n < 1000) : ∀ c ∈ pad3 n, c.isDigit = true := by
  intro c hc
  simp only [pad3, pad2, List.mem_cons, List.not_mem_nil, or_false] at hc
  rcases hc with rfl | rfl | rfl
  · exact isDigit_digitChar _ (by omega)
  · exact isDigit_digitChar _ (by omega)
  · exact isDigit_digitChar _ (by omega)

theorem quote_not_mem_of_isDigit {s : Text} (h : ∀ c ∈ s, c.isDigit = true) : '"' ∉ s :=
  fun hm => absurd (h _ hm) (by decide)

/-- The keys of the main log format. -/
def recordKeys : List Text :=
  ["src".toList, "src_ip".toList, "user".toList, timeKey, statusKey, bytesKey, "bytes_in".toList,
    "http_referer".toList, "http_user_agent".toList, "http_x_forwarded_for".toList,
    "uri_query".toList, "uri_path".toList, "http_method".toList, "response_time".toList,
    "request_time".toList, "category".toList]

theorem AccessRecord.pairs_keys (r : AccessRecord) : r.pairs.map Prod.fst = recordKeys := rfl

/-- The pairs of a record are words with values that hold no quote. -/
theorem AccessRecord.wellFormed (r : AccessRecord) : WellFormed r.pairs := by
  have haddr : ∀ a : Address, '"' ∉ a.text := fun a => a.not_mem (by decide)
  have hstatus : '"' ∉ pad3 r.status :=
    quote_not_mem_of_isDigit (isDigit_of_mem_pad3 r.status_lt)
  have hbytes : '"' ∉ Nat.toDigits 10 r.bytesSent :=
    quote_not_mem_of_isDigit (fun c hc => GoStrings.isDigit_of_mem_toDigits hc)
  have hkeys : ∀ k ∈ recordKeys, IsKey k := by decide
  intro p hp
  refine ⟨hkeys p.1 (r.pairs_keys ▸ List.mem_map_of_mem hp), ?_⟩
  simp only [AccessRecord.pairs, AccessRecord.laterPairs, List.mem_cons, List.not_mem_nil,
    or_false] at hp
  rcases hp with rfl | rfl | rfl | rfl | rfl | rfl | hp
  · exact haddr _
  · exact haddr _
  · exact quote_not_mem_escape _
  · exact toText_quote _
  · exact hstatus
  · exact hbytes
  · rcases hp with rfl | rfl | rfl | rfl | rfl | rfl | rfl | rfl | rfl | rfl <;>
      exact quote_not_mem_escape _

/-- The first pair of a key gives its value. -/
theorem findSome?_key (front : Pairs) {rest : Pairs} {key v found : Text}
    {read : Text → Option Text} (hfront : key ∉ front.map Prod.fst) (hv : read v = some found) :
    (front ++ (key, v) :: rest).findSome? (fun p => if p.1 = key then read p.2 else none) =
      some found := by
  induction front with
  | nil => simp [hv]
  | cons p front ih =>
      simp only [List.map_cons, List.mem_cons, not_or] at hfront
      rw [List.cons_append, List.findSome?_cons, if_neg (Ne.symm hfront.1)]
      exact ih hfront.2

/-- The status is read from its own pair, whatever the values are. -/
theorem kvStatusRE_line (r : AccessRecord) : kvStatusRE r.line = some (pad3 r.status) := by
  have hrun : runValue Char.isDigit (·.length = 3) (pad3 r.status) = some (pad3 r.status) :=
    runValue_of_all (isDigit_of_mem_pad3 r.status_lt) rfl
  have hfront : statusKey ∉ recordKeys.take 4 := by decide
  rw [kvStatusRE, AccessRecord.line,
    firstMatch_digits_line (by decide) (by decide) r.wellFormed (List.cons_ne_nil _ _)]
  exact findSome?_key (r.pairs.take 4) hfront hrun

/-- So is the size. -/
theorem kvBytesOutRE_line (r : AccessRecord) :
    kvBytesOutRE r.line = some (Nat.toDigits 10 r.bytesSent) := by
  have hrun : runValue Char.isDigit notEmpty (Nat.toDigits 10 r.bytesSent) =
      some (Nat.toDigits 10 r.bytesSent) := by
    refine runValue_of_all (fun c hc => GoStrings.isDigit_of_mem_toDigits hc) ?_
    exact decide_eq_true Nat.toDigits_ne_nil
  have hfront : bytesKey ∉ recordKeys.take 5 := by decide
  rw [kvBytesOutRE, AccessRecord.line,
    firstMatch_digits_line (by decide) (by decide) r.wellFormed (List.cons_ne_nil _ _)]
  exact findSome?_key (r.pairs.take 5) hfront hrun

/-- The time is read from its own pair, unless the user name ends with its key. -/
theorem kvTimeRE_line (r : AccessRecord) :
    kvTimeRE r.line =
      if endsWithKey timeKey (some '"') (escape r.remoteUser) then some " time_local=".toList
      else some r.timeLocal.toText := by
  have hwf := r.wellFormed
  have haddr : ∀ a : Address, endsWithKey timeKey (some '"') a.text = false :=
    fun a => endsWithKey_of_not_mem _ (a.not_mem (by decide))
  have hrun : runValue (· ≠ '"') notEmpty r.timeLocal.toText = some r.timeLocal.toText := by
    refine runValue_of_all ?_ rfl
    intro c hc
    exact decide_eq_true (fun heq => toText_quote r.timeLocal (heq ▸ hc))
  have hsep : valueAt (· ≠ '"') notEmpty (tailText (r.pairs.drop 3)) =
      some " time_local=".toList := rfl
  have hkey : IsKey timeKey := by decide
  have hkeys : IsKey "src".toList ∧ IsKey "src_ip".toList ∧ IsKey "user".toList := by
    decide
  have hother : "src".toList ≠ timeKey ∧ "src_ip".toList ≠ timeKey ∧ "user".toList ≠ timeKey := by
    decide
  have hclass : (decide ('"' ≠ '"')) = false := by decide
  have haddrs : '"' ∉ r.remoteAddr.text ∧ '"' ∉ r.realipRemoteAddr.text :=
    ⟨r.remoteAddr.not_mem (by decide), r.realipRemoteAddr.not_mem (by decide)⟩
  have hsplit : r.line = lineOf (("src".toList, r.remoteAddr.text) ::
      ("src_ip".toList, r.realipRemoteAddr.text) :: ("user".toList, escape r.remoteUser) ::
        r.pairs.drop 3) := rfl
  have hrest : r.pairs.drop 3 = (timeKey, r.timeLocal.toText) :: r.pairs.drop 4 := rfl
  rw [kvTimeRE, hsplit, lineOf_cons, firstMatch_pair hkey hclass hkeys.1 haddrs.1 rfl,
    if_neg hother.1, haddr, if_neg Bool.false_ne_true, Option.none_or, Option.none_or,
    firstMatch_tail_cons hkey hclass hkeys.2.1 haddrs.2, if_neg hother.2.1, haddr,
    if_neg Bool.false_ne_true, Option.none_or, Option.none_or,
    firstMatch_tail_cons hkey hclass hkeys.2.2 (quote_not_mem_escape _), if_neg hother.2.2,
    Option.none_or, hsep]
  split_ifs with huser
  · rfl
  · rw [Option.none_or, hrest, firstMatch_tail_cons hkey hclass hkey (toText_quote _),
      if_pos rfl, hrun]
    rfl

theorem wordAt_append {w : Text} (hw : ∀ c ∈ w, isGap c = false) (hne : w ≠ []) (rest : Text) :
    wordAt (w ++ ' ' :: rest) = some rest := by
  have hp : ∀ c ∈ w, decide (¬ isGap c) = true := fun c hc => by simp [hw c hc]
  have htake : (w ++ ' ' :: rest).takeWhile (fun c => ¬ isGap c) = w := by
    rw [List.takeWhile_append_of_pos hp]
    simp [isGap]
  have hdrop : (w ++ ' ' :: rest).dropWhile (fun c => ¬ isGap c) = ' ' :: rest := by
    rw [List.dropWhile_append_of_pos hp]
    simp [isGap]
  rw [wordAt, htake, hdrop, if_pos hne, skipChar_cons]

theorem Address.no_gap (a : Address) : ∀ c ∈ a.text, isGap c = false := by
  intro c hc
  by_contra hgap
  simp only [Bool.not_eq_false, isGap, decide_eq_true_eq] at hgap
  have hplain := a.plain c hc
  rcases hgap with rfl | rfl | rfl | rfl | rfl <;> exact absurd hplain (by decide)

/-- The text of a record from the value of the user name on. -/
theorem wordAt_addresses (r : AccessRecord) :
    (wordAt r.line).bind wordAt =
      some ("user=\"".toList ++ (escape r.remoteUser ++ '"' :: tailText (r.pairs.drop 3))) := by
  have hsplit : r.line = ("src=\"".toList ++ r.remoteAddr.text ++ ['"']) ++ ' ' ::
      (("src_ip=\"".toList ++ r.realipRemoteAddr.text ++ ['"']) ++ ' ' ::
        ("user=\"".toList ++ (escape r.remoteUser ++ '"' :: tailText (r.pairs.drop 3)))) := by
    simp [AccessRecord.line, AccessRecord.pairs, lineOf, tailText]
  have hword : ∀ (key : Text) (a : Address), (∀ c ∈ key, isGap c = false) →
      ∀ c ∈ key ++ a.text ++ ['"'], isGap c = false := by
    intro key a hkey c hc
    simp only [List.mem_append, List.mem_singleton] at hc
    rcases hc with (hc | hc) | rfl
    · exact hkey c hc
    · exact a.no_gap c hc
    · decide
  rw [hsplit, wordAt_append (hword _ _ (by decide)) (by simp), Option.bind_some,
    wordAt_append (hword _ _ (by decide)) (by simp)]

/-- What follows the closing quote of the user name is no status. -/
theorem requestAt_tail (r : AccessRecord) : requestAt ('"' :: tailText (r.pairs.drop 3)) = none := by
  have hdrop : (tailText (r.pairs.drop 3)).dropWhile (· ≠ '"') =
      '"' :: (r.timeLocal.toText ++ '"' :: tailText (r.pairs.drop 4)) := rfl
  have hdigit : ∀ d < 10, Nat.digitChar d ≠ ' ' := by decide
  have hmax := daysIn_le r.timeLocal.month r.timeLocal.year
  have hday := r.timeLocal.day_mem
  have hhead : ∀ rest, skipChar ' ' (r.timeLocal.toText ++ rest) = none := by
    intro rest
    simp only [LocalTime.toText, pad2, List.cons_append, skipChar]
    rw [if_neg (hdigit _ (by omega))]
  rw [requestAt, hdrop]
  simp only [Option.bind_eq_bind, skipChar_cons, Option.bind_some, hhead, Option.bind_none]

/-- A record in which the pattern of the common log format matches has its
closing bracket behind the user name, so that there is a quote in the brackets. -/
theorem quote_mem_of_pattern {r : AccessRecord} {m : AccessMatch}
    (h : nginxAccessPattern r.line = some m) : '"' ∈ m.time := by
  simp only [nginxAccessPattern, Option.bind_eq_bind, Option.bind_eq_some_iff] at h
  obtain ⟨s1, h1, s2, h2, s3, h3, time, h4, s5, h5, ⟨status, bytes⟩, h6, hm⟩ := h
  have haddresses := wordAt_addresses r
  rw [h1, Option.bind_some, h2, Option.some.injEq] at haddresses
  subst haddresses
  obtain rfl := Option.some.inj hm
  have hquote := quote_not_mem_escape r.remoteUser
  have huser : ∀ c ∈ "user=\"".toList, isGap c = false := by decide
  cases hfind : (escape r.remoteUser).find? isGap with
  | none =>
      -- the third word is the whole pair, and the next one begins with a letter
      have hplain : ∀ c ∈ escape r.remoteUser, isGap c = false := by
        simpa using List.find?_eq_none.mp hfind
      have hword : ∀ c ∈ "user=\"".toList ++ escape r.remoteUser ++ ['"'], isGap c = false := by
        intro c hc
        simp only [List.mem_append, List.mem_singleton] at hc
        rcases hc with (hc | hc) | rfl
        · exact huser c hc
        · exact hplain c hc
        · decide
      have htail : tailText (r.pairs.drop 3) = ' ' :: lineOf (r.pairs.drop 3) := rfl
      have hsplit : "user=\"".toList ++ (escape r.remoteUser ++ '"' :: tailText (r.pairs.drop 3)) =
          ("user=\"".toList ++ escape r.remoteUser ++ ['"']) ++ ' ' :: lineOf (r.pairs.drop 3) := by
        simp only [htail, List.append_assoc, List.cons_append, List.nil_append]
      rw [hsplit, wordAt_append hword (by simp), Option.some.injEq] at h3
      subst h3
      cases h4
  | some c =>
      -- the third word ends at the first blank of the user name
      obtain ⟨hgap, w, x, hsplit, hw⟩ := List.find?_eq_some_iff_append.mp hfind
      have hmem : c ∈ escape r.remoteUser := by simp [hsplit]
      obtain rfl := eq_blank_of_mem_escape hmem hgap
      have hword : ∀ c ∈ "user=\"".toList ++ w, isGap c = false := by
        intro c hc
        rcases List.mem_append.mp hc with hc | hc
        · exact huser c hc
        · simpa using hw c hc
      have hx : '"' ∉ x := fun hm => hquote (hsplit ▸ by simp [hm])
      have hthird := wordAt_append hword (by simp) (x ++ '"' :: tailText (r.pairs.drop 3))
      rw [hsplit, List.append_assoc w, List.cons_append, ← List.append_assoc, hthird,
        Option.some.injEq] at h3
      subst h3
      cases x with
      | nil => cases h4
      | cons d y =>
          by_cases hd : d = '['
          · subst hd
            have hy : '"' ∉ y := fun hm => hx (List.mem_cons_of_mem _ hm)
            simp only [List.cons_append, bracketAt] at h4
            split_ifs at h4 with hinner
            obtain rfl := Option.some.inj h4
            by_cases hclose : ']' ∈ y
            · exfalso
              obtain ⟨z, rest, rfl, hz⟩ := List.eq_append_cons_of_mem hclose
              have hkeep : ∀ c ∈ z, decide (c ≠ ']') = true := fun c hc =>
                decide_eq_true (fun heq => hz (heq ▸ hc))
              have hdrop : (('[' :: (z ++ ']' :: rest)) ++
                  '"' :: tailText (r.pairs.drop 3)).dropWhile (· ≠ ']') =
                  ']' :: (rest ++ '"' :: tailText (r.pairs.drop 3)) := by
                rw [List.cons_append, List.dropWhile_cons_of_pos (by decide), List.append_assoc,
                  List.dropWhile_append_of_pos hkeep]
                rfl
              rw [hdrop, List.drop_one, List.tail_cons] at h5
              cases rest with
              | nil =>
                  rw [List.nil_append, skipChar] at h5
                  cases h5
              | cons e rest =>
                  rw [List.cons_append, skipChar] at h5
                  split_ifs at h5 with he
                  obtain rfl := Option.some.inj h5
                  cases rest with
                  | nil =>
                      rw [List.nil_append, requestAt_tail] at h6
                      cases h6
                  | cons f rest =>
                      have hf : f ≠ '"' := by
                        rintro rfl
                        exact hy (by simp)
                      rw [List.cons_append, requestAt] at h6
                      · cases h6
                      · rintro t ⟨⟩
                        exact hf rfl
            · have hkeep : ∀ c ∈ y, decide (c ≠ ']') = true := fun c hc =>
                decide_eq_true (fun heq => hclose (heq ▸ hc))
              show '"' ∈ (y ++ '"' :: tailText (r.pairs.drop 3)).takeWhile (· ≠ ']')
              rw [List.takeWhile_append_of_pos hkeep, List.takeWhile_cons_of_pos (by decide)]
              simp
          · rw [List.cons_append, bracketAt] at h4
            · cases h4
            · rintro t ⟨⟩
              exact hd rfl

theorem atoi_pad3 {n : ℕ} (h : n < 1000) : atoi (pad3 n) = n := by
  have hsmall : ∀ m : ℤ, 0 ≤ m → m < 1000 → wrap64 m = m :=
    fun m hlow hhigh => wrap64_of_fits ⟨by omega, by omega⟩
  rw [atoi, pad3, pad2, atoiLoop_digitChar (by omega), atoiLoop_digitChar (by omega),
    atoiLoop_digitChar (by omega), atoiLoop, hsmall (0 * 10 + (n / 100 : ℕ)) (by omega) (by omega),
    hsmall ((0 * 10 + (n / 100 : ℕ)) * 10 + (n % 100 / 10 : ℕ)) (by omega) (by omega),
    hsmall _ (by omega) (by omega)]
  omega

theorem goAtoi_pad3 {n : ℕ} (h : n < 1000) : GoStrings.atoi (pad3 n) = ((n : ℤ), none) := by
  have hsign := GoStrings.splitSign_of_isDigit (isDigit_of_mem_pad3 h)
  have hread : GoStrings.parseUintLoop 0 (pad3 n) = .ok n := by
    have hval : ((0 * 10 + n / 100) * 10 + n % 100 / 10) * 10 + n % 100 % 10 = n := by omega
    simp only [pad3, pad2, GoStrings.parseUintLoop,
      GoStrings.digit?_digitChar (n / 100) (by omega),
      GoStrings.digit?_digitChar (n % 100 / 10) (by omega),
      GoStrings.digit?_digitChar (n % 100 % 10) (by omega)]
    rw [if_pos (by omega), if_pos (by omega), if_pos (by omega), hval]
  have hne : pad3 n ≠ [] := List.cons_ne_nil _ _
  have hfit : ¬ 2 ^ 63 ≤ n := by omega
  simp only [GoStrings.atoi, hsign, hne, hread, if_false, Bool.false_eq_true, ge_iff_le,
    if_neg hfit]

/-- The time a reader finds under its key. -/
theorem timeOf_kvTimeRE (r : AccessRecord) :
    timeOf (kvTimeRE r.line) =
      if endsWithKey timeKey (some '"') (escape r.remoteUser) then none
      else some r.timeLocal.instant := by
  have hother : parseTime " time_local=".toList = none := by decide
  have hzero := r.timeLocal.instant_not_zero
  rw [kvTimeRE_line]
  split_ifs with huser
  · rw [timeOf, Option.bind_some, hother]
    rfl
  · rw [timeOf, Option.bind_some, parseTime_toText]
    simp [Option.filter, hzero]

theorem parseAccessLine_line (r : AccessRecord) :
    parseAccessLine r.line =
      (lineTime r.line).map fun ts =>
        match r.steering with
        | some (status, bytes) => ⟨ts, atoi status, if bytes = ['-'] then 0 else atoi bytes⟩
        | none => ⟨ts, r.status, r.bytesSent⟩ := by
  have hcombined : combinedLogRE r.line = r.steering := combinedLogRE_line r.wellFormed
  rw [parseAccessLine, hcombined, kvStatusRE_line, kvBytesOutRE_line]
  simp only [Option.elim_some, atoi_pad3 r.status_lt, atoi_toDigits r.bytesSent_lt]
  cases lineTime r.line with
  | none => rfl
  | some ts => cases r.steering <;> rfl

/-- Without a match of the common log format the event fields are the pairs'. -/
theorem applyAccessFields_line {r : AccessRecord} (h : nginxAccessPattern r.line = none)
    (ev : LogEvent) :
    applyAccessFields ev r.line =
      ⟨((kvTimeRE r.line).bind parseTime).getD ev.timestamp, some r.status, some r.bytesSent⟩ := by
  rw [applyAccessFields, h, kvStatusRE_line, kvBytesOutRE_line]
  simp only [Option.elim_some, atoiOr, goAtoi_pad3 r.status_lt,
    GoStrings.atoi_toDigits r.bytesSent_lt]

/-- Both readers return a record's own time, status and bytes exactly when none
of its values steers them. -/
theorem readBack_iff (r : AccessRecord) : r.ReadBack ↔ r.Unsteered := by
  have hother : parseTime " time_local=".toList = none := by decide
  -- an event whose time differs from the record's
  obtain ⟨ev, hev⟩ : ∃ ev : LogEvent, ev.timestamp ≠ r.timeLocal.instant := by
    refine ⟨⟨⟨r.timeLocal.instant.sec + 1, 0⟩, none, none⟩, fun h => ?_⟩
    have hsec := congrArg Time.sec h
    simp only at hsec
    omega
  constructor
  · rintro ⟨hparse, happly⟩
    have hshape : nginxAccessPattern r.line = none := by
      cases hmatch : nginxAccessPattern r.line with
      | none => rfl
      | some m =>
          have hfail : parseTime m.time = none := by
            cases htime : parseTime m.time with
            | none => rfl
            | some t =>
                exact absurd (quote_mem_of_pattern hmatch) (quote_not_mem_of_parseTime htime)
          have htime := congrArg LogEvent.timestamp (happly ev)
          rw [applyAccessFields, hmatch] at htime
          simp only [hfail, Option.getD_none] at htime
          exact absurd htime hev
    have huser : endsWithKey timeKey (some '"') (escape r.remoteUser) = false := by
      by_contra huser
      have htime := congrArg LogEvent.timestamp (happly ev)
      rw [applyAccessFields_line hshape, kvTimeRE_line, if_pos (by simpa using huser)] at htime
      simp only [Option.bind_some, hother, Option.getD_none] at htime
      exact absurd htime hev
    rw [parseAccessLine_line] at hparse
    obtain ⟨ts, hts, hline⟩ := Option.map_eq_some_iff.mp hparse
    refine ⟨huser, ?_, ?_, hshape⟩
    · intro t ht
      rw [lineTime, ht, Option.some_or, Option.some.injEq] at hts
      subst hts
      cases hsteer : r.steering <;> simpa [hsteer, AccessRecord.own] using congrArg AccessLine.ts hline
    · intro status bytes hsteer
      rw [hsteer] at hline
      exact ⟨congrArg AccessLine.status hline, congrArg AccessLine.bytes hline⟩
  · rintro ⟨huser, htime, hsize, hshape⟩
    have hkey : ¬ endsWithKey timeKey (some '"') (escape r.remoteUser) = true := by simp [huser]
    refine ⟨?_, fun ev => ?_⟩
    · have hline : lineTime r.line = some r.timeLocal.instant := by
        rw [lineTime, timeOf_kvTimeRE, if_neg hkey]
        cases hbracket : timeOf (nginxTimeRE r.line) with
        | none => rfl
        | some t => rw [htime t hbracket, Option.some_or]
      rw [parseAccessLine_line, hline, Option.map_some]
      cases hsteer : r.steering with
      | none => rfl
      | some found =>
          obtain ⟨status, bytes⟩ := found
          obtain ⟨hstatus, hbytes⟩ := hsize status bytes hsteer
          simp only [hstatus, hbytes]
          rfl
    · rw [applyAccessFields_line hshape, kvTimeRE_line, if_neg hkey, Option.bind_some,
        parseTime_toText]
      rfl

/-- A request whose user agent is a time in brackets. -/
def datedRequest : AccessRecord where
  remoteAddr := ⟨"10.0.0.9".toList, by decide⟩
  realipRemoteAddr := ⟨"10.0.0.9".toList, by decide⟩
  remoteUser := none
  timeLocal := ⟨2026, 6, 15, 10, 0, 2, false, 0, 0, by decide, by decide, by decide, by decide,
    by decide⟩
  status := 404
  bytesSent := 89
  upstreamBytesReceived := none
  httpReferer := none
  httpUserAgent := some ("[01/Jan/2020:00:00:00 +0000]".toList.map (UInt8.ofNat ·.toNat))
  httpXForwardedFor := none
  queryString := none
  uri := some [47]
  requestMethod := some [71, 69, 84]
  upstreamResponseTime := none
  requestTime := some [48]
  sentHttpContentType := none
  status_lt := by decide
  bytesSent_lt := by decide

/-- The collector takes the time from the user agent. -/
theorem datedRequest_steers :
    parseAccessLine datedRequest.line = some ⟨⟨date 2020 1 1 0 0 0, 0⟩, 404, 89⟩ ∧
      ¬ datedRequest.ReadBack := by
  have hparse : parseAccessLine datedRequest.line =
      some ⟨⟨date 2020 1 1 0 0 0, 0⟩, 404, 89⟩ := by
    set_option maxRecDepth 20000 in
    decide
  refine ⟨hparse, fun h => ?_⟩
  have hown := hparse.symm.trans h.1
  exact absurd hown (by decide)

end GoSite.AccessRecords
