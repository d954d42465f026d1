import GoSite.AccessRecords

/-!
# Access records in the combined log format

A line of the combined format has its request between the first two quotes, and status and
size behind it, whatever the client sends. The lines of both formats are printable.
-/
namespace GoSite.AccessRecords
open AccessLines GoTimes

/-- The variables of the combined log format. -/
structure CombinedRecord where
  remoteAddr : Address
  remoteUser : Option (List UInt8)
  timeLocal : LocalTime
  request : Option (List UInt8)
  status : ℕ
  bodyBytesSent : ℕ
  httpReferer : Option (List UInt8)
  httpUserAgent : Option (List UInt8)
  status_lt : status < 1000
  bodyBytesSent_lt : bodyBytesSent < 2 ^ 63

/-- `$remote_addr - $remote_user [$time_local] `. -/
def CombinedRecord.head (r : CombinedRecord) : Text :=
  r.remoteAddr.text ++ " - ".toList ++ escape r.remoteUser ++ " [".toList ++
    r.timeLocal.toText ++ "] ".toList

/-- `"$http_referer" "$http_user_agent"` behind its first quote. -/
def CombinedRecord.rest (r : CombinedRecord) : Text :=
  escape r.httpReferer ++ "\" \"".toList ++ escape r.httpUserAgent ++ ['"']

/-- `$remote_addr - $remote_user [$time_local] "$request" $status $body_bytes_sent
"$http_referer" "$http_user_agent"`. -/
def CombinedRecord.line (r : CombinedRecord) : Text :=
  r.head ++ '"' :: (escape r.request ++ '"' :: ' ' :: (pad3 r.status ++
    ' ' :: (Nat.toDigits 10 r.bodyBytesSent ++ ' ' :: '"' :: r.rest)))

theorem isDigit_quote_gap {c : Char} (h : c.isDigit = true) : c ≠ '"' ∧ isGap c = false := by
  refine ⟨fun heq => absurd h (heq ▸ by decide), ?_⟩
  by_contra hgap
  simp only [Bool.not_eq_false, isGap, decide_eq_true_eq] at hgap
  rcases hgap with rfl | rfl | rfl | rfl | rfl <;> exact absurd h (by decide)

/-- The first run of digits, and the rest. -/
theorem takeWhile_digits {digits : Text} (h : ∀ c ∈ digits, c.isDigit = true) (rest : Text) :
    (digits ++ ' ' :: rest).takeWhile Char.isDigit = digits ∧
      (digits ++ ' ' :: rest).dropWhile Char.isDigit = ' ' :: rest := by
  have hblank : Char.isDigit ' ' = false := by decide
  constructor
  · rw [List.takeWhile_append_of_pos h, List.takeWhile_cons_of_neg (by simp [hblank]),
      List.append_nil]
  · rw [List.dropWhile_append_of_pos h, List.dropWhile_cons_of_neg (by simp [hblank])]

theorem dropWhile_gap {digits : Text} (hne : digits ≠ []) (h : ∀ c ∈ digits, c.isDigit = true)
    (rest : Text) : (' ' :: (digits ++ rest)).dropWhile isGap = digits ++ rest := by
  cases digits with
  | nil => exact absurd rfl hne
  | cons d digits =>
      have hd := (isDigit_quote_gap (h d List.mem_cons_self)).2
      have hblank : isGap ' ' = true := by decide
      rw [List.cons_append, List.dropWhile_cons_of_pos hblank,
        List.dropWhile_cons_of_neg (by simp [hd])]

/-- Status and size of a line of the combined format. -/
theorem statusAndSizeAt_digits {status size : Text} (hlength : status.length = 3)
    (hstatus : ∀ c ∈ status, c.isDigit = true) (hne : size ≠ [])
    (hsize : ∀ c ∈ size, c.isDigit = true) (rest : Text) :
    statusAndSizeAt (' ' :: (status ++ ' ' :: (size ++ ' ' :: '"' :: rest))) =
      some (status, size) := by
  have hstatusNe : status ≠ [] := by
    rintro rfl
    cases hlength
  have hsizeAt : sizeAt (size ++ ' ' :: '"' :: rest) = (size, ' ' :: '"' :: rest) := by
    obtain ⟨htake, hdrop⟩ := takeWhile_digits hsize ('"' :: rest)
    cases size with
    | nil => exact absurd rfl hne
    | cons d size =>
        have hd : d ≠ '-' := fun heq => absurd (hsize d List.mem_cons_self) (heq ▸ by decide)
        rw [List.cons_append, sizeAt]
        · rw [← List.cons_append, htake, hdrop]
        · rintro t ⟨⟩
          exact hd rfl
  obtain ⟨htake, hdrop⟩ := takeWhile_digits hstatus (size ++ ' ' :: '"' :: rest)
  have hgap : isGap ' ' = true := by decide
  have hquote : isGap '"' = false := by decide
  have hend : (' ' :: '"' :: rest).dropWhile isGap = '"' :: rest := by
    rw [List.dropWhile_cons_of_pos hgap, List.dropWhile_cons_of_neg (by simp [hquote])]
  simp only [statusAndSizeAt, dropWhile_gap hstatusNe hstatus, htake, hdrop,
    dropWhile_gap hne hsize, hsizeAt, hend]
  rw [if_pos]
  exact ⟨hgap, hlength, hgap, hne, hgap, rfl⟩

/-- The first match of the pattern is the record's own status and size. -/
theorem combinedLogRE_combined (r : CombinedRecord) :
    combinedLogRE r.line = some (pad3 r.status, Nat.toDigits 10 r.bodyBytesSent) := by
  have hhead : '"' ∉ r.head := by
    have haddr := r.remoteAddr.not_mem (c := '"') (by decide)
    have hblank : '"' ∉ " - ".toList ∧ '"' ∉ " [".toList ∧ '"' ∉ "] ".toList := by decide
    have huser := quote_not_mem_escape r.remoteUser
    have htime := toText_quote r.timeLocal
    simp only [CombinedRecord.head, List.mem_append, not_or]
    exact ⟨⟨⟨⟨⟨haddr, hblank.1⟩, huser⟩, hblank.2.1⟩, htime⟩, hblank.2.2⟩
  have hlength : (pad3 r.status).length = 3 := rfl
  have hdigits : ∀ c ∈ Nat.toDigits 10 r.bodyBytesSent, c.isDigit = true :=
    fun c hc => GoStrings.isDigit_of_mem_toDigits hc
  have hsize := statusAndSizeAt_digits hlength (isDigit_of_mem_pad3 r.status_lt)
    Nat.toDigits_ne_nil hdigits r.rest
  rw [combinedLogRE, CombinedRecord.line, firstMatch_combined_skip hhead, firstMatch,
    combinedAt_quote (quote_not_mem_escape r.request), hsize]
  rfl

/-- What the collector reads from a line of the combined format. -/
theorem parseAccessLine_combined (r : CombinedRecord) :
    parseAccessLine r.line =
      (lineTime r.line).map fun ts => ⟨ts, r.status, r.bodyBytesSent⟩ := by
  have hne : Nat.toDigits 10 r.bodyBytesSent ≠ ['-'] := by
    intro heq
    have hmem : '-' ∈ Nat.toDigits 10 r.bodyBytesSent := heq ▸ List.mem_singleton_self _
    exact absurd (GoStrings.isDigit_of_mem_toDigits hmem) (by decide)
  rw [parseAccessLine, combinedLogRE_combined]
  cases lineTime r.line with
  | none => rfl
  | some ts =>
      simp only [if_neg hne, atoi_pad3 r.status_lt, atoi_toDigits r.bodyBytesSent_lt,
        Option.map_some]

/-! ## The characters of a line -/

def Printable (c : Char) : Prop := 32 ≤ c.toNat ∧ c.toNat ≤ 126

instance (c : Char) : Decidable (Printable c) := inferInstanceAs (Decidable (_ ∧ _))

theorem printable_digitChar (n : ℕ) : Printable (Nat.digitChar n) := by
  by_cases hn : n < 16
  · have hall : ∀ n < 16, Printable (Nat.digitChar n) := by decide
    exact hall n hn
  · have hstar : Nat.digitChar n = '*' := by
      unfold Nat.digitChar
      repeat rw [if_neg (by omega)]
    rw [hstar]
    decide

theorem printable_escape {v : Option (List UInt8)} : ∀ c ∈ escape v, Printable c := by
  have hbyte : ∀ n < 256, ∀ c ∈ escapeByte (UInt8.ofNat n), Printable c := by
    set_option maxRecDepth 20000 in
    decide
  cases v with
  | none => decide
  | some bytes =>
      intro c hc
      obtain ⟨b, -, hb⟩ := List.mem_flatMap.mp hc
      have hall := hbyte b.toNat (UInt8.toNat_lt b)
      rw [UInt8.ofNat_toNat] at hall
      exact hall c hb

theorem printable_alphanum {c : Char} (h : c.isAlphanum = true) : Printable c := by
  simp only [Char.isAlphanum, Char.isAlpha, Char.isUpper, Char.isLower, Char.isDigit,
    Bool.or_eq_true, Bool.and_eq_true, decide_eq_true_eq, ge_iff_le, UInt32.le_iff_toNat_le] at h
  rw [Printable, Char.toNat]
  rcases h with (⟨hlow, hhigh⟩ | ⟨hlow, hhigh⟩) | ⟨hlow, hhigh⟩
  · exact ⟨le_trans (by decide) hlow, le_trans hhigh (by decide)⟩
  · exact ⟨le_trans (by decide) hlow, le_trans hhigh (by decide)⟩
  · exact ⟨le_trans (by decide) hlow, le_trans hhigh (by decide)⟩

theorem printable_address (a : Address) : ∀ c ∈ a.text, Printable c := by
  intro c hc
  rcases a.plain c hc with h | rfl | rfl
  · exact printable_alphanum h
  · decide
  · decide

theorem printable_pad2 (n : ℕ) : ∀ c ∈ pad2 n, Printable c := by
  intro c hc
  rcases List.mem_pair.mp hc with rfl | rfl <;> exact printable_digitChar _

theorem printable_toText (t : LocalTime) : ∀ c ∈ t.toText, Printable c := by
  have hmonth : ∀ c ∈ shortMonthNames.getD (t.month - 1) [], Printable c := by
    have hall : ∀ n < 12, ∀ c ∈ shortMonthNames.getD n [], Printable c := by decide
    exact hall _ (by have := t.month_mem; omega)
  have hsign : ∀ c, c = (if t.west then '-' else '+') → Printable c := by
    rintro c rfl
    split_ifs <;> decide
  intro c hc
  simp only [LocalTime.toText, pad4, List.mem_append, List.mem_cons] at hc
  rcases hc with h | rfl | h | rfl | (h | h) | rfl | h | rfl | h | rfl | h | rfl | h | h | h
  · exact printable_pad2 _ c h
  · decide
  · exact hmonth c h
  · decide
  · exact printable_pad2 _ c h
  · exact printable_pad2 _ c h
  · decide
  · exact printable_pad2 _ c h
  · decide
  · exact printable_pad2 _ c h
  · decide
  · exact printable_pad2 _ c h
  · decide
  · exact hsign c h
  · exact printable_pad2 _ c h
  · exact printable_pad2 _ c h

theorem printable_digits {n : ℕ} : ∀ c ∈ Nat.toDigits 10 n, Printable c := by
  intro c hc
  refine printable_alphanum ?_
  rw [Char.isAlphanum, GoStrings.isDigit_of_mem_toDigits hc, Bool.or_true]

theorem printable_pad3 (n : ℕ) : ∀ c ∈ pad3 n, Printable c := by
  intro c hc
  rcases List.mem_cons.mp hc with rfl | hc
  · exact printable_digitChar _
  · exact printable_pad2 _ c hc

theorem CombinedRecord.printable (r : CombinedRecord) : ∀ c ∈ r.line, Printable c := by
  have hseps : ∀ sep ∈ [" - ".toList, " [".toList, "] ".toList, "\" \"".toList], ∀ c ∈ sep,
      Printable c := by decide
  intro c hc
  simp only [CombinedRecord.line, CombinedRecord.head, CombinedRecord.rest, List.mem_append,
    List.mem_cons, List.not_mem_nil, or_false] at hc
  rcases hc with (((((h | h) | h) | h) | h) | h) | rfl | h | rfl | rfl | h | rfl | h | rfl | rfl |
    ((h | h) | h) | rfl
  · exact printable_address _ c h
  · exact hseps _ (by simp) c h
  · exact printable_escape c h
  · exact hseps _ (by simp) c h
  · exact printable_toText _ c h
  · exact hseps _ (by simp) c h
  · decide
  · exact printable_escape c h
  · decide
  · decide
  · exact printable_pad3 _ c h
  · decide
  · exact printable_digits c h
  · decide
  · decide
  · exact printable_escape c h
  · exact hseps _ (by simp) c h
  · exact printable_escape c h
  · decide

theorem printable_tailText {pairs : Pairs} (h : ∀ p ∈ pairs, ∀ c ∈ p.1 ++ p.2, Printable c) :
    ∀ c ∈ tailText pairs, Printable c := by
  induction pairs with
  | nil => exact fun c hc => absurd hc List.not_mem_nil
  | cons p rest ih =>
      have hrest := ih fun q hq => h q (List.mem_cons_of_mem p hq)
      have hp := h p List.mem_cons_self
      intro c hc
      simp only [tailText, List.mem_cons, List.mem_append] at hc
      rcases hc with rfl | hc | rfl | rfl | hc | rfl | hc
      · decide
      · exact hp c (List.mem_append_left _ hc)
      · decide
      · decide
      · exact hp c (List.mem_append_right _ hc)
      · decide
      · exact hrest c hc

theorem AccessRecord.printable (r : AccessRecord) : ∀ c ∈ r.line, Printable c := by
  have hkeys : ∀ key ∈ recordKeys, ∀ c ∈ key, Printable c := by decide
  have hvalues : ∀ p ∈ r.pairs, ∀ c ∈ p.2, Printable c := by
    intro p hp
    simp only [AccessRecord.pairs, AccessRecord.laterPairs, List.mem_cons, List.not_mem_nil,
      or_false] at hp
    rcases hp with rfl | rfl | rfl | rfl | rfl | rfl | rfl | rfl | rfl | rfl | rfl | rfl | rfl |
      rfl | rfl | rfl
    · exact printable_address _
    · exact printable_address _
    · exact printable_escape
    · exact printable_toText _
    · exact printable_pad3 _
    · exact printable_digits
    all_goals exact printable_escape
  have htail : ∀ c ∈ tailText r.pairs, Printable c := by
    refine printable_tailText fun p hp c hc => ?_
    rcases List.mem_append.mp hc with hc | hc
    · exact hkeys p.1 (r.pairs_keys ▸ List.mem_map_of_mem hp) c hc
    · exact hvalues p hp c hc
  exact fun c hc => htail c ((List.drop_suffix 1 _).subset hc)

theorem getLast?_tailText {pairs : Pairs} (h : pairs ≠ []) :
    (tailText pairs).getLast? = some '"' := by
  induction pairs with
  | nil => exact absurd rfl h
  | cons p rest ih =>
      obtain ⟨k, v⟩ := p
      have hsplit : tailText ((k, v) :: rest) =
          (' ' :: (k ++ '=' :: '"' :: v)) ++ '"' :: tailText rest := by
        simp [tailText]
      rw [hsplit, List.getLast?_append_cons, List.getLast?_cons]
      cases rest with
      | nil => rfl
      | cons q rest => rw [ih (List.cons_ne_nil q rest)]; rfl

/-- A line of the main format ends with the quote of its last value. -/
theorem AccessRecord.getLast?_line (r : AccessRecord) : r.line.getLast? = some '"' := by
  have hne : r.pairs ≠ [] := List.cons_ne_nil _ _
  have hlast := getLast?_tailText hne
  have hcons : tailText r.pairs = ' ' :: r.line := rfl
  rw [hcons, List.getLast?_cons] at hlast
  cases hline : r.line.getLast? with
  | none => rw [hline] at hlast; exact absurd hlast (by decide)
  | some c => rw [hline] at hlast; exact hlast

end GoSite.AccessRecords
