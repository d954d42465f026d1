import GoSite.CombinedRecords
import GoSite.FailedPasses
import GoSite.Utf8Texts

/-!
# Two counts of the traffic

The system service counts the access logs when it is asked, and shows one log for each site.
The collector stores what it counts. They have a pattern in common, but differ in what they
do with lines that it does not match, with lines without a time and with the names of logs.
-/
namespace GoSite.NginxTraffic
open AccessLines AccessRecords GoStrings GoTimes LineScanner Observability

structure TrafficSite where
  requests : ℤ
  bytes : ℤ
  deriving Repr, DecidableEq

instance : Zero TrafficSite := ⟨⟨0, 0⟩⟩

structure NginxTrafficResult where
  sites : AList (fun _ : Text => TrafficSite)
  total : TrafficSite

/-- The collector's pattern without the group around the status. -/
def accessBytesPattern (line : Text) : Option Text := (combinedLogRE line).map Prod.snd

/-- `strconv.ParseInt` of a decimal number of 64 bits. -/
def parseInt (s : Text) : Option ℤ :=
  match GoStrings.atoi s with
  | (n, none) => some n
  | (_, some _) => none

def addBytes (stat : TrafficSite) (s : Text) : TrafficSite :=
  match parseInt s with
  | some b => { stat with bytes := wrap64 (stat.bytes + b) }
  | none => stat

/-- One round of the loop of `parseAccessLogFile`. -/
def countLine (stat : TrafficSite) (line : Line) : TrafficSite :=
  if line = [] then stat
  else
    let stat := { stat with requests := stat.requests + 1 }
    match accessBytesPattern (lineText line) with
    | some size => if size = ['-'] then stat else addBytes stat size
    | none =>
        match (fields (decode line).toList).getLast? with
        | some field => addBytes stat field
        | none => stat

/-- A line that does not fit the scanner's buffer is an error. -/
def parseAccessLogFile (content : List UInt8) : Option TrafficSite :=
  if ∀ l ∈ rawLines content, l.length < 64 * 1024 then
    some ((scanLines content).foldl countLine 0)
  else none

/-- The site whose traffic a log is taken for. -/
def domainOf (base : Text) : Text :=
  if "access-".toList <+: base then
    trimSuffix (trimPrefix base "access-".toList) ".log".toList
  else "default".toList

/-- `filepath.Match` of `access*.log`. -/
def matchesPattern (name : Text) : Bool :=
  "access".toList <+: name ∧ ".log".toList <:+ name.drop "access".toList.length

/-- `filepath.Glob` of the log directory, by name. -/
def glob (files : List LogFile) : List LogFile :=
  (files.filter (matchesPattern ·.name)).insertionSort fun f g => f.name ≤ g.name

def addFile (result : NginxTrafficResult) (f : LogFile) : NginxTrafficResult :=
  match parseAccessLogFile f.content with
  | none => result
  | some stat =>
      ⟨result.sites.insert (domainOf f.name) stat,
        ⟨result.total.requests + stat.requests, wrap64 (result.total.bytes + stat.bytes)⟩⟩

/-- `NginxTraffic`. -/
def nginxTraffic (files : List LogFile) : NginxTrafficResult := (glob files).foldl addFile ⟨∅, 0⟩

/-- What the table has for a site, over the rows that a pass has stored. -/
def storedFor (table : BucketKey → Counters) (rows : List (Σ _ : BucketKey, Counters))
    (site : Text) : TrafficSite :=
  let own := rows.filter (·.1.site = site)
  ⟨(own.map fun b => (table b.1).requests).sum, (own.map fun b => (table b.1).bytes).sum⟩

/-! ## Logs of records -/

/-- A line in one of the two formats. -/
inductive LogLine where
  | combined (r : CombinedRecord)
  | main (r : AccessRecord)

def LogLine.text : LogLine → Text
  | .combined r => r.line
  | .main r => r.line

def LogLine.bytes (l : LogLine) : Line := l.text.map fun c => UInt8.ofNat c.toNat

/-- An access log of complete lines. -/
structure RecordLog where
  name : Text
  lines : List LogLine

def RecordLog.file (log : RecordLog) : LogFile :=
  ⟨log.name, joinLines (log.lines.map LogLine.bytes)⟩

/-- The bytes of a line that the service sees: those of a combined line, and in a main line
the size next to a status in one of its values. -/
def LogLine.seen : LogLine → ℤ
  | .combined r => r.bodyBytesSent
  | .main r => (r.steering.bind fun found => parseInt found.2).getD 0

/-- The bytes of a line that the collector counts. -/
def LogLine.size : LogLine → ℤ
  | .combined r => r.bodyBytesSent
  | .main r => r.steering.elim (r.bytesSent : ℤ) fun found =>
      if found.2 = ['-'] then 0 else AccessLines.atoi found.2

/-- The bucket of a line in which a time can be read. -/
def LogLine.bucket (l : LogLine) : Option ℤ := (lineTime l.text).map truncateBucket

/-- The lines of the log that is shown for a site: of those taken for it, the last by name. -/
def shown (logs : List RecordLog) (site : Text) : List LogLine :=
  ((((logs.filter (isAccessLog ·.name)).insertionSort fun f g => f.name ≤ g.name).filter
    (domainOf ·.name = site)).getLast?.map RecordLog.lines).getD []

/-- The lines of the logs that the collector takes for a site. -/
def gathered (logs : List RecordLog) (site : Text) : List LogLine :=
  (logs.filter fun log => isAccessLog log.name ∧ siteFromAccessLogName log.name = site).flatMap
    RecordLog.lines

/-- Bucket and size of the lines in which a time can be read. -/
def dated (lines : List LogLine) : List (ℤ × ℤ) :=
  lines.filterMap fun l => l.bucket.map fun ts => (ts, l.size)

/-- The sizes add up in each bucket. -/
def bucketBytes (pairs : List (ℤ × ℤ)) : ℤ :=
  ((pairs.map Prod.fst).dedup.map fun ts =>
    wrap64 ((pairs.filter (·.1 = ts)).map Prod.snd).sum).sum

/-- As many lines are shown for a site as lines with a time are gathered for it, and the
bytes that are seen in the ones add up to the sizes of the others. -/
structure Balanced (logs : List RecordLog) (site : Text) : Prop where
  requests : (shown logs site).length = (dated (gathered logs site)).length
  bytes : wrap64 ((shown logs site).map LogLine.seen).sum = bucketBytes (dated (gathered logs site))

/-! ## What the service reads -/

theorem LogLine.printable (l : LogLine) : ∀ c ∈ l.text, Printable c := by
  cases l with
  | combined r => exact r.printable
  | main r => exact r.printable

theorem ofNat_toNat_printable {c : Char} (h : Printable c) :
    Char.ofNat (UInt8.ofNat c.toNat).toNat = c := by
  have hlt : c.toNat < 256 := by have := h.2; omega
  rw [UInt8.toNat_ofNat_of_lt' hlt, Char.ofNat_toNat]

theorem LogLine.lineText_bytes (l : LogLine) : lineText l.bytes = l.text := by
  rw [lineText, LogLine.bytes, List.map_map]
  refine (List.map_congr_left fun c hc => ?_).trans (List.map_id _)
  exact ofNat_toNat_printable (l.printable c hc)

theorem decode_printable {text : Text} (h : ∀ c ∈ text, Printable c) :
    (decode (text.map fun c => UInt8.ofNat c.toNat)).toList = text := by
  have hrunes : (runes (text.map fun c => UInt8.ofNat c.toNat)).map Rune.char = text := by
    induction text with
    | nil => rfl
    | cons c text ih =>
        have hc := h c List.mem_cons_self
        have hlt : c.toNat < 128 := Nat.lt_succ_of_le (hc.2.trans (by decide))
        have hascii : IsAscii (UInt8.ofNat c.toNat) := by
          rw [IsAscii, UInt8.toNat_ofNat_of_lt' (hlt.trans (by decide))]
          exact hlt
        rw [List.map_cons, runes_ascii hascii, List.map_cons,
          ih fun d hd => h d (List.mem_cons_of_mem c hd), ofNat_toNat_printable hc]
  rw [decode, hrunes, String.toList_ofList]

/-- The last word of a text that ends with a character that is no white space ends with it. -/
theorem getLast?_fieldsLoop {c : Char} (hc : isSpace c = false) (word s : Text) :
    ∃ field, (fieldsLoop word (s ++ [c])).getLast? = some field ∧ field.getLast? = some c := by
  induction s generalizing word with
  | nil =>
      refine ⟨(c :: word).reverse, ?_, ?_⟩
      · simp [fieldsLoop, hc]
      · simp
  | cons d s ih =>
      rw [List.cons_append, fieldsLoop]
      split_ifs with hspace hword
      · exact ih []
      · obtain ⟨field, hfield, hlast⟩ := ih []
        refine ⟨field, ?_, hlast⟩
        rw [List.getLast?_cons, hfield, Option.getD_some]
      · exact ih (d :: word)

theorem parseUintLoop_of_getLast {n m : ℕ} {s : Text} (h : parseUintLoop n s = .ok m) :
    s.getLast? ≠ some '"' := by
  induction s generalizing n with
  | nil => simp
  | cons c s ih =>
      rw [parseUintLoop] at h
      cases hdigit : digit? c with
      | none => simp [hdigit] at h
      | some d =>
          simp only [hdigit] at h
          split_ifs at h with hfits
          have hrest := ih h
          intro hlast
          rw [List.getLast?_cons] at hlast
          cases hs : s.getLast? with
          | none =>
              rw [hs] at hlast
              obtain rfl := Option.some.inj hlast
              cases hdigit.symm.trans (by decide : digit? '"' = none)
          | some e =>
              rw [hs] at hlast
              exact hrest (hs.trans hlast)

/-- A text that ends with a quote is no number. -/
theorem parseInt_quote {s : Text} (h : s.getLast? = some '"') : parseInt s = none := by
  have hsign : (splitSign s).2.getLast? = some '"' ∨ (splitSign s).2 = [] := by
    rw [splitSign.eq_def]
    split
    · next t =>
        cases t with
        | nil => exact .inr rfl
        | cons d t => exact .inl (by simpa using h)
    · next t =>
        cases t with
        | nil => exact .inr rfl
        | cons d t => exact .inl (by simpa using h)
    · exact .inl h
  rw [parseInt, GoStrings.atoi]
  rcases hsplit : splitSign s with ⟨neg, digits⟩
  rw [hsplit] at hsign
  dsimp only at hsign ⊢
  by_cases hdigits : digits = []
  · rw [if_pos hdigits]
  · rw [if_neg hdigits]
    have hlast := hsign.resolve_right hdigits
    cases hread : parseUintLoop 0 digits with
    | ok n => exact absurd hlast (parseUintLoop_of_getLast hread)
    | error e =>
        cases e with
        | invalid => rfl
        | range => cases neg <;> rfl

theorem LogLine.bytes_ne_nil (l : LogLine) : l.bytes ≠ [] := by
  intro h
  have htext : l.text = [] := List.map_eq_nil_iff.mp h
  cases l with
  | combined r => exact absurd htext (by simp [LogLine.text, CombinedRecord.line])
  | main r =>
      have hlast := r.getLast?_line
      rw [show r.line = [] from htext] at hlast
      cases hlast

theorem parseInt_toDigits {n : ℕ} (h : n < 2 ^ 63) :
    parseInt (Nat.toDigits 10 n) = some (n : ℤ) := by
  rw [parseInt, GoStrings.atoi_toDigits h]

/-- Each line is a request of its own, with the bytes that are seen. -/
theorem countLine_bytes (l : LogLine) (n a : ℤ) :
    countLine ⟨n, wrap64 a⟩ l.bytes = ⟨n + 1, wrap64 (a + l.seen)⟩ := by
  have hadd : ∀ size b, parseInt size = some b →
      addBytes ⟨n + 1, wrap64 a⟩ size = ⟨n + 1, wrap64 (a + b)⟩ := by
    intro size b hsize
    rw [addBytes, hsize]
    dsimp only
    rw [wrap64_add]
  rw [countLine, if_neg l.bytes_ne_nil, l.lineText_bytes, accessBytesPattern]
  cases l with
  | combined r =>
      have hne : Nat.toDigits 10 r.bodyBytesSent ≠ ['-'] := by
        intro heq
        have hmem : '-' ∈ Nat.toDigits 10 r.bodyBytesSent := heq ▸ List.mem_singleton_self _
        exact absurd (GoStrings.isDigit_of_mem_toDigits hmem) (by decide)
      simp only [LogLine.text, combinedLogRE_combined, Option.map_some, if_neg hne]
      exact hadd _ _ (parseInt_toDigits r.bodyBytesSent_lt)
  | main r =>
      have hcombined : combinedLogRE r.line = r.steering := combinedLogRE_line r.wellFormed
      simp only [LogLine.text, LogLine.seen, hcombined]
      cases r.steering with
      | none =>
          have hdecode : (decode (LogLine.main r).bytes).toList = r.line :=
            decode_printable r.printable
          have hsplit : r.line = r.line.dropLast ++ ['"'] := by
            have hne : r.line ≠ [] := fun h => by simpa [h] using r.getLast?_line
            have hlast : r.line.getLast hne = '"' := by
              simpa [List.getLast?_eq_some_getLast hne] using r.getLast?_line
            rw [← hlast, List.dropLast_append_getLast]
          obtain ⟨field, hfield, hquote⟩ :=
            getLast?_fieldsLoop (c := '"') (by decide) [] r.line.dropLast
          rw [← hsplit] at hfield
          simp only [Option.map_none, hdecode, fields, hfield, addBytes, parseInt_quote hquote,
            Option.bind_none, Option.getD_none, Int.add_zero]
      | some found =>
          simp only [Option.map_some, Option.bind_some]
          split_ifs with hdash
          · have hnone : parseInt found.2 = none := by rw [hdash]; decide
            rw [hnone, Option.getD_none, Int.add_zero]
          · cases hsize : parseInt found.2 with
            | none => rw [addBytes, hsize, Option.getD_none, Int.add_zero]
            | some b => exact hadd _ _ hsize

/-- The fold over the lines of a log. -/
theorem foldl_countLine (lines : List LogLine) (n a : ℤ) :
    (lines.map LogLine.bytes).foldl countLine ⟨n, wrap64 a⟩ =
      ⟨n + lines.length, wrap64 (a + (lines.map LogLine.seen).sum)⟩ := by
  induction lines generalizing n a with
  | nil => simp
  | cons l lines ih =>
      rw [List.map_cons, List.foldl_cons, countLine_bytes, ih, List.map_cons, List.sum_cons,
        List.length_cons, Nat.cast_succ]
      refine congrArg₂ TrafficSite.mk (by omega) ?_
      rw [Int.add_assoc]

theorem LogLine.not_mem_bytes (l : LogLine) {b : UInt8} (hb : b.toNat < 32) : b ∉ l.bytes := by
  intro hm
  obtain ⟨c, hc, rfl⟩ := List.mem_map.mp hm
  have hprint := l.printable c hc
  have hlt : c.toNat < 256 := hprint.2.trans_lt (by decide)
  rw [UInt8.toNat_ofNat_of_lt' hlt] at hb
  exact absurd hb (Nat.not_lt.mpr hprint.1)

theorem rawLines_file (log : RecordLog) :
    rawLines log.file.content = log.lines.map LogLine.bytes := by
  have hlines : ∀ l ∈ log.lines.map LogLine.bytes, lf ∉ l := by
    intro l hl
    obtain ⟨line, -, rfl⟩ := List.mem_map.mp hl
    exact line.not_mem_bytes (by decide)
  have hraw := rawLines_joinLines_append _ [] hlines
  rwa [List.append_nil, rawLines_nil, List.append_nil] at hraw

theorem scanLines_file (log : RecordLog) :
    scanLines log.file.content = log.lines.map LogLine.bytes := by
  rw [scanLines, rawLines_file, List.map_map]
  refine List.map_congr_left fun l _ => ?_
  have hcr : l.bytes.getLast? ≠ some cr := by
    intro hlast
    exact l.not_mem_bytes (b := cr) (by decide) (List.mem_of_getLast? hlast)
  rw [Function.comp_apply, dropCR, if_neg hcr]

/-- A log whose lines fit the scanner's buffer is read to its end. -/
theorem parseAccessLogFile_file {log : RecordLog}
    (hshort : ∀ l ∈ log.lines, l.bytes.length < 64 * 1024) :
    parseAccessLogFile log.file.content =
      some ⟨log.lines.length, wrap64 (log.lines.map LogLine.seen).sum⟩ := by
  rw [parseAccessLogFile, rawLines_file, if_pos, scanLines_file]
  · have hstart : (0 : TrafficSite) = ⟨0, wrap64 0⟩ := rfl
    rw [hstart, foldl_countLine, Int.zero_add, Int.zero_add]
  · intro l hl
    obtain ⟨line, hline, rfl⟩ := List.mem_map.mp hl
    exact hshort line hline

/-! ## Which log is shown -/

/-- The star of the pattern takes what is between the two ends of an access log's name. -/
theorem matchesPattern_eq (name : Text) : matchesPattern name = isAccessLog name := by
  rw [matchesPattern, isAccessLog]
  refine decide_eq_decide.mpr (and_congr_right fun hprefix => ?_)
  obtain ⟨rest, rfl⟩ := hprefix
  rw [List.drop_left]
  constructor
  · exact fun h => h.trans (List.suffix_append _ _)
  · intro h
    rcases Nat.lt_or_ge rest.length 4 with hshort | hlong
    · obtain ⟨front, hfront⟩ := h
      have hdot : (front ++ ".log".toList).drop (6 + rest.length - 4) = ".log".toList := by
        have hlength := congrArg List.length hfront
        simp only [List.length_append] at hlength
        have hfrontLength : front.length = 6 + rest.length - 4 := by
          have h4 : ".log".toList.length = 4 := by decide
          have h6 : "access".toList.length = 6 := by decide
          omega
        rw [← hfrontLength, List.drop_left]
      rw [hfront] at hdot
      have hhead := congrArg List.head? hdot
      rw [List.head?_drop, List.getElem?_append_left (by
        have h6 : "access".toList.length = 6 := by decide
        omega)] at hhead
      have hnone : ∀ i < 6, "access".toList[i]? ≠ ".log".toList.head? := by decide
      exact absurd hhead (hnone _ (by omega))
    · refine List.suffix_of_suffix_length_le h (List.suffix_append _ _) ?_
      exact hlong

/-- What the service has for a site in the end is the last log taken for it. -/
theorem lookup_foldl_addFile (logs : List RecordLog) (result : NginxTrafficResult)
    (hshort : ∀ log ∈ logs, ∀ l ∈ log.lines, l.bytes.length < 64 * 1024) (site : Text) :
    ((logs.map RecordLog.file).foldl addFile result).sites.lookup site =
      ((logs.filter (domainOf ·.name = site)).getLast?.map fun log =>
        (⟨log.lines.length, wrap64 (log.lines.map LogLine.seen).sum⟩ : TrafficSite)).or
        (result.sites.lookup site) := by
  induction logs generalizing result with
  | nil => rfl
  | cons log logs ih =>
      have hlog := parseAccessLogFile_file (hshort log List.mem_cons_self)
      rw [List.map_cons, List.foldl_cons, ih _ fun g hg => hshort g (List.mem_cons_of_mem log hg),
        addFile, hlog]
      by_cases hsite : domainOf log.name = site
      · rw [List.filter_cons_of_pos (by simpa using hsite), List.getLast?_cons]
        have hname : domainOf log.file.name = site := hsite
        rw [hname, AList.lookup_insert]
        cases (logs.filter (domainOf ·.name = site)).getLast? <;> rfl
      · rw [List.filter_cons_of_neg (by simpa using hsite)]
        have hname : site ≠ domainOf log.file.name := fun heq => hsite heq.symm
        rw [AList.lookup_insert_ne hname]

theorem glob_files (logs : List RecordLog) :
    glob (logs.map RecordLog.file) = ((logs.filter (isAccessLog ·.name)).insertionSort
      fun f g => f.name ≤ g.name).map RecordLog.file := by
  have hmatches : (fun f : LogFile => matchesPattern f.name) = fun f => isAccessLog f.name :=
    funext fun f => matchesPattern_eq f.name
  rw [glob, hmatches, List.filter_map,
    List.map_insertionSort (fun f g : RecordLog => f.name ≤ g.name)
      (fun f g : LogFile => f.name ≤ g.name) RecordLog.file _ fun _ _ _ _ => Iff.rfl]
  rfl

/-- The traffic that is shown for a site. -/
theorem nginxTraffic_lookup {logs : List RecordLog}
    (hshort : ∀ log ∈ logs, ∀ l ∈ log.lines, l.bytes.length < 64 * 1024) (site : Text) :
    ((nginxTraffic (logs.map RecordLog.file)).sites.lookup site).getD 0 =
      ⟨(shown logs site).length, wrap64 ((shown logs site).map LogLine.seen).sum⟩ := by
  rw [nginxTraffic, glob_files, lookup_foldl_addFile, shown]
  · cases (((logs.filter (isAccessLog ·.name)).insertionSort fun f g => f.name ≤ g.name).filter
      (domainOf ·.name = site)).getLast? <;> rfl
  · intro log hlog
    rw [List.mem_insertionSort, List.mem_filter] at hlog
    exact hshort log hlog.1

/-! ## What the collector stores -/

/-- A line with a quote is not blank. -/
theorem isBlank_of_quote {line : Line} (hascii : ∀ b ∈ line, b.toNat < 128)
    (h : (34 : UInt8) ∈ line) : isBlank line = false := by
  induction line with
  | nil => cases h
  | cons b line ih =>
      have hb := hascii b List.mem_cons_self
      rw [isBlank.eq_def]
      dsimp only
      split_ifs with hblank
      · refine ih (fun c hc => hascii c (List.mem_cons_of_mem b hc)) ?_
        rcases List.mem_cons.mp h with rfl | h
        · exact absurd hblank (by decide)
        · exact h
      · split
        all_goals first | rfl | exact absurd hb (by decide)

theorem LogLine.not_blank (l : LogLine) : isBlank l.bytes = false := by
  refine isBlank_of_quote ?_ ?_
  · intro b hb
    obtain ⟨c, hc, rfl⟩ := List.mem_map.mp hb
    have hlt : c.toNat < 128 := (l.printable c hc).2.trans_lt (by decide)
    rwa [UInt8.toNat_ofNat_of_lt' (hlt.trans (by decide))]
  · have hquote : '"' ∈ l.text := by
      cases l with
      | combined r => simp [LogLine.text, CombinedRecord.line]
      | main r => exact List.mem_of_getLast? r.getLast?_line
    exact List.mem_map_of_mem hquote

/-- Bucket, site and bytes of what the collector reads from a line. -/
theorem hitOf_bytes (site : Text) (l : LogLine) :
    (hitOf site l.bytes).map (fun h => (h.1, h.2.bytes)) =
      l.bucket.map fun ts => ((⟨ts, site⟩ : BucketKey), l.size) := by
  rw [hitOf, if_neg (by rw [l.not_blank]; decide), l.lineText_bytes, LogLine.bucket]
  cases l with
  | combined r =>
      simp only [LogLine.text, LogLine.size, parseAccessLine_combined]
      cases lineTime r.line <;> rfl
  | main r =>
      simp only [LogLine.text, LogLine.size, parseAccessLine_line]
      cases lineTime r.line with
      | none => rfl
      | some ts => cases r.steering <;> rfl

/-- Bucket and bytes of the hits of a site. -/
def sitePairs (site : Text) (hits : List (BucketKey × AccessLine)) : List (ℤ × ℤ) :=
  (hits.filter (·.1.site = site)).map fun h => (h.1.ts, h.2.bytes)

theorem sitePairs_append (site : Text) (hits more : List (BucketKey × AccessLine)) :
    sitePairs site (hits ++ more) = sitePairs site hits ++ sitePairs site more := by
  simp [sitePairs]

theorem dated_append (lines more : List LogLine) :
    dated (lines ++ more) = dated lines ++ dated more := List.filterMap_append ..

theorem sitePairs_lines (own site : Text) (lines : List LogLine) :
    sitePairs site ((lines.map LogLine.bytes).filterMap (hitOf own)) =
      if own = site then dated lines else [] := by
  induction lines with
  | nil => simp [sitePairs, dated]
  | cons l lines ih =>
      have hhit := hitOf_bytes own l
      have hcons : dated (l :: lines) =
          (l.bucket.map fun ts => (ts, l.size)).toList ++ dated lines := by
        rw [dated, List.filterMap_cons]
        cases l.bucket <;> rfl
      rw [List.map_cons, List.filterMap_cons, hcons]
      cases hbucket : l.bucket with
      | none =>
          rw [hbucket, Option.map_none, Option.map_eq_none_iff] at hhit
          rw [hhit]
          exact ih
      | some ts =>
          rw [hbucket, Option.map_some] at hhit
          obtain ⟨hit, hsome, hpair⟩ := Option.map_eq_some_iff.mp hhit
          simp only [Prod.mk.injEq] at hpair
          rw [hsome]
          have hhead : sitePairs site [hit] = if own = site then [(ts, l.size)] else [] := by
            by_cases hown : own = site
            · simp [sitePairs, hpair, hown]
            · simp [sitePairs, hpair, hown]
          refine (sitePairs_append site [hit] _).trans ?_
          rw [hhead, ih]
          split_ifs <;> rfl

theorem gathered_cons (log : RecordLog) (logs : List RecordLog) (site : Text) :
    gathered (log :: logs) site =
      (if isAccessLog log.name ∧ siteFromAccessLogName log.name = site then log.lines else []) ++
        gathered logs site := by
  rw [gathered, List.filter_cons]
  split_ifs with hlog hif hif
  · rfl
  · exact absurd (of_decide_eq_true hlog) hif
  · exact absurd (decide_eq_true hif) hlog
  · rfl

/-- The hits of a site in a directory are the dated lines gathered for it. -/
theorem sitePairs_hits (logs : List RecordLog) (site : Text) :
    sitePairs site (logs.flatMap fun log => hitsOf log.name log.file.content) =
      dated (gathered logs site) := by
  induction logs with
  | nil => rfl
  | cons log logs ih =>
      rw [List.flatMap_cons, sitePairs_append, ih, gathered_cons, dated_append, hitsOf,
        scanLines_file]
      refine congrArg (· ++ _) ?_
      by_cases haccess : isAccessLog log.name = true
      · rw [if_pos haccess, sitePairs_lines]
        by_cases hsite : siteFromAccessLogName log.name = site
        · rw [if_pos hsite, if_pos ⟨haccess, hsite⟩]
        · rw [if_neg hsite, if_neg fun h => hsite h.2]
          rfl
      · rw [if_neg haccess, if_neg fun h => haccess h.1]
        rfl

theorem bytes_tally (key : BucketKey) (hits : List (BucketKey × AccessLine)) :
    (tally key hits).bytes = ((hits.filter (·.1 = key)).map fun h => h.2.bytes).sum := by
  have hline : ∀ l, (Counters.ofLine l).bytes = l.bytes := by
    intro l
    unfold Counters.ofLine applyStatusFamily
    split_ifs <;> rfl
  unfold tally
  induction hits.filter (·.1 = key) with
  | nil => rfl
  | cons h hits ih =>
      rw [List.map_cons, List.sum_cons, List.map_cons, List.sum_cons, ← ih, ← hline h.2]
      rfl

/-- The hits of a bucket among those of its site. -/
theorem filter_sitePairs (site : Text) (ts : ℤ) (hits : List (BucketKey × AccessLine)) :
    (sitePairs site hits).filter (·.1 = ts) =
      (hits.filter (·.1 = (⟨ts, site⟩ : BucketKey))).map fun h => (h.1.ts, h.2.bytes) := by
  rw [sitePairs, List.filter_map, List.filter_filter]
  refine congrArg _ (List.filter_congr fun h _ => ?_)
  obtain ⟨⟨ts', site'⟩, l⟩ := h
  simp [eq_comm]

/-- The rows of a site, one for each bucket of its hits. -/
theorem rows_perm {rows : List (Σ _ : BucketKey, Counters)}
    {hits : List (BucketKey × AccessLine)} (hkeys : rows.NodupKeys)
    (hmem : ∀ key, key ∈ rows.keys ↔ ∃ h ∈ hits, h.1 = key) (site : Text) :
    ((rows.filter (·.1.site = site)).map (·.1.ts)).Perm
      ((sitePairs site hits).map Prod.fst).dedup := by
  have hnodup : ((rows.filter (·.1.site = site)).map (·.1.ts)).Nodup := by
    have hsub : ((rows.filter (·.1.site = site)).map Sigma.fst).Nodup :=
      hkeys.sublist List.filter_sublist
    have hmapped := hsub.map_on (f := BucketKey.ts) fun x hx y hy heq => by
      obtain ⟨b, hb, rfl⟩ := List.mem_map.mp hx
      obtain ⟨c, hc, rfl⟩ := List.mem_map.mp hy
      have hbsite := of_decide_eq_true (List.mem_filter.mp hb).2
      have hcsite := of_decide_eq_true (List.mem_filter.mp hc).2
      rw [BucketKey.mk.injEq]
      exact ⟨heq, hbsite.trans hcsite.symm⟩
    rwa [List.map_map] at hmapped
  refine (List.perm_ext_iff_of_nodup hnodup (List.nodup_dedup _)).mpr fun ts => ?_
  rw [List.mem_dedup]
  constructor
  · intro h
    obtain ⟨b, hb, rfl⟩ := List.mem_map.mp h
    obtain ⟨hrow, hsite⟩ := List.mem_filter.mp hb
    obtain ⟨hit, hhit, hkey⟩ := (hmem b.1).mp (List.mem_keys_of_mem hrow)
    refine List.mem_map.mpr ⟨(hit.1.ts, hit.2.bytes), ?_, by rw [hkey]⟩
    refine List.mem_map_of_mem (List.mem_filter.mpr ⟨hhit, ?_⟩)
    rw [hkey]
    exact hsite
  · intro h
    obtain ⟨pair, hpair, rfl⟩ := List.mem_map.mp h
    obtain ⟨hit, hhit, rfl⟩ := List.mem_map.mp hpair
    obtain ⟨hhits, hsite⟩ := List.mem_filter.mp hhit
    obtain ⟨b, hb, hkey⟩ := List.mem_map.mp ((hmem hit.1).mpr ⟨hit, hhits, rfl⟩)
    refine List.mem_map.mpr ⟨b, List.mem_filter.mpr ⟨hb, ?_⟩, ?_⟩
    · rw [hkey]
      exact hsite
    · rw [hkey]

/-- The rows of a site count its dated lines and add up their sizes. -/
theorem storedFor_eq {table : BucketKey → Counters} {rows : List (Σ _ : BucketKey, Counters)}
    {hits : List (BucketKey × AccessLine)} (hkeys : rows.NodupKeys)
    (hmem : ∀ key, key ∈ rows.keys ↔ ∃ h ∈ hits, h.1 = key)
    (htable : ∀ key, table key = (tally key hits).wrap) (site : Text) :
    storedFor table rows site =
      ⟨(sitePairs site hits).length, bucketBytes (sitePairs site hits)⟩ := by
  have hperm := rows_perm hkeys hmem site
  have hkey : ∀ b ∈ rows.filter (·.1.site = site), b.1 = (⟨b.1.ts, site⟩ : BucketKey) := by
    intro b hb
    rw [← of_decide_eq_true (List.mem_filter.mp hb).2]
  have hsum : ∀ f : Counters → ℤ,
      ((rows.filter (·.1.site = site)).map fun b => f (table b.1)).sum =
        (((sitePairs site hits).map Prod.fst).dedup.map fun ts =>
          f (tally ⟨ts, site⟩ hits).wrap).sum := by
    intro f
    rw [← (hperm.map fun ts => f (tally ⟨ts, site⟩ hits).wrap).sum_eq, List.map_map]
    refine congrArg List.sum (List.map_congr_left fun b hb => ?_)
    rw [htable, hkey b hb]
    rfl
  rw [storedFor, hsum, hsum]
  refine congrArg₂ TrafficSite.mk ?_ ?_
  · have hcount : ∀ ts, (tally ⟨ts, site⟩ hits).wrap.requests =
        (((sitePairs site hits).map Prod.fst).count ts : ℤ) := by
      intro ts
      rw [requests_wrap, requests_tally, List.count_eq_length_filter, List.filter_map,
        List.length_map]
      refine congrArg Nat.cast ?_
      have hpairs := congrArg List.length (filter_sitePairs site ts hits)
      rw [List.length_map] at hpairs
      rw [← hpairs]
      rfl
    rw [List.map_congr_left fun ts _ => hcount ts, ← List.length_map Prod.fst,
      ← List.sum_map_count_dedup_eq_length, Nat.cast_list_sum, List.map_map]
    rfl
  · rw [bucketBytes]
    refine congrArg List.sum (List.map_congr_left fun ts _ => ?_)
    rw [filter_sitePairs, List.map_map, Counters.wrap, bytes_tally]
    rfl

/-- A pass stores a row for each bucket that an unread line belongs to. -/
theorem collect_rows {s t : CollectorState} {listing : List LogFile}
    {order : List (Σ _ : BucketKey, Counters)} (hnodup : (s.files.map LogFile.name).Nodup)
    (hpass : s.step (.collect listing order) = some t) :
    order.NodupKeys ∧ ∀ key, key ∈ order.keys ↔ ∃ h ∈ s.unreadHits, h.1 = key := by
  simp only [CollectorState.step] at hpass
  split_ifs at hpass with hlisting
  split at hpass
  · cases hpass
  · next offsets buckets hcollect =>
    split_ifs at hpass with horder
    obtain ⟨-, hkeys, hcounting, hdelta⟩ := collect_buckets hnodup hlisting hcollect horder
    refine ⟨hkeys, fun key => ?_⟩
    have hcount : ((order.dlookup key).getD 0).requests =
        (s.unreadHits.filter (·.1 = key)).length := by
      rw [hdelta, CollectorState.delta, requests_wrap, requests_tally]
    constructor
    · intro hkey
      obtain ⟨b, hb, rfl⟩ := List.mem_map.mp hkey
      have hpos := hcounting b hb
      rw [show order.dlookup b.1 = some b.2 from List.mem_dlookup hkeys hb,
        Option.getD_some] at hcount
      have hlength : 0 < (s.unreadHits.filter (·.1 = b.1)).length := by omega
      obtain ⟨h, hh⟩ := List.exists_mem_of_length_pos hlength
      exact ⟨h, (List.mem_filter.mp hh).1, of_decide_eq_true (List.mem_filter.mp hh).2⟩
    · rintro ⟨h, hh, rfl⟩
      by_contra hkey
      rw [List.dlookup_eq_none.mpr hkey, Option.getD_none] at hcount
      have hin : h ∈ s.unreadHits.filter (·.1 = h.1) :=
        List.mem_filter.mpr ⟨hh, decide_eq_true rfl⟩
      have hlength := List.length_pos_of_mem hin
      rw [show (0 : Counters).requests = 0 from rfl] at hcount
      omega

/-! ## Logs without a value that looks like a status -/

/-- The sums of the groups add up to the whole sum. -/
theorem sum_groups {keys : List ℤ} (hkeys : keys.Nodup) {pairs : List (ℤ × ℤ)}
    (hmem : ∀ p ∈ pairs, p.1 ∈ keys) :
    (keys.map fun ts => ((pairs.filter (·.1 = ts)).map Prod.snd).sum).sum =
      (pairs.map Prod.snd).sum := by
  induction pairs with
  | nil => simp
  | cons p pairs ih =>
      have hstep : ∀ ts, (((p :: pairs).filter (·.1 = ts)).map Prod.snd).sum =
          (if ts = p.1 then p.2 else 0) + ((pairs.filter (·.1 = ts)).map Prod.snd).sum := by
        intro ts
        by_cases hts : p.1 = ts
        · rw [List.filter_cons_of_pos (by simpa using hts), if_pos hts.symm, List.map_cons,
            List.sum_cons]
        · rw [List.filter_cons_of_neg (by simpa using hts), if_neg fun h => hts h.symm, zero_add]
      have hone := List.count_eq_one_of_mem hkeys (hmem p List.mem_cons_self)
      rw [List.map_congr_left fun ts _ => hstep ts, List.sum_map_add,
        List.sum_map_ite_eq keys (fun _ => p.2) (fun _ => 0), hone,
        ih fun q hq => hmem q (List.mem_cons_of_mem p hq), List.map_cons, List.sum_cons]
      simp

/-- No bucket overflows if the whole sum does not. -/
theorem bucketBytes_of_fits {pairs : List (ℤ × ℤ)} (hpos : ∀ p ∈ pairs, 0 ≤ p.2)
    (hfits : (pairs.map Prod.snd).sum < 2 ^ 63) :
    bucketBytes pairs = (pairs.map Prod.snd).sum := by
  have hnonneg : ∀ x ∈ pairs.map Prod.snd, (0 : ℤ) ≤ x := by
    intro x hx
    obtain ⟨p, hp, rfl⟩ := List.mem_map.mp hx
    exact hpos p hp
  have hgroup : ∀ ts, wrap64 ((pairs.filter (·.1 = ts)).map Prod.snd).sum =
      ((pairs.filter (·.1 = ts)).map Prod.snd).sum := by
    intro ts
    have hsub : ((pairs.filter (·.1 = ts)).map Prod.snd).Sublist (pairs.map Prod.snd) :=
      List.filter_sublist.map Prod.snd
    have hle := hsub.sum_le_sum hnonneg
    have hzero := List.sum_nonneg fun x hx => hnonneg x (hsub.subset hx)
    exact wrap64_of_fits ⟨by omega, by omega⟩
  rw [bucketBytes, List.map_congr_left fun ts _ => hgroup ts]
  refine sum_groups (List.nodup_dedup _) fun p hp => ?_
  exact List.mem_dedup.mpr (List.mem_map_of_mem hp)

theorem dated_length_iff (lines : List LogLine) :
    lines.length = (dated lines).length ↔ ∀ l ∈ lines, l.bucket.isSome := by
  rw [eq_comm, dated, List.filterMap_length_eq_length]
  simp

theorem sizes_dated {lines : List LogLine} (h : ∀ l ∈ lines, l.bucket.isSome) :
    (dated lines).map Prod.snd = lines.map LogLine.size := by
  induction lines with
  | nil => rfl
  | cons l lines ih =>
      obtain ⟨ts, hts⟩ := Option.isSome_iff_exists.mp (h l List.mem_cons_self)
      have hrest := ih fun m hm => h m (List.mem_cons_of_mem l hm)
      have hcons : dated (l :: lines) = (ts, l.size) :: dated lines := by
        rw [dated, List.filterMap_cons, hts]
        rfl
      rw [hcons, List.map_cons, List.map_cons, hrest]

/-- Where the log that is shown for a site is the only one gathered for it, its main lines
have no value that looks like a status and a size, and the bytes do not overflow, the counts
agree if and only if each line has a time and no bytes were sent for its main lines. -/
theorem balanced_plain_iff {logs : List RecordLog} {site : Text}
    (hsame : gathered logs site = shown logs site)
    (hplain : ∀ r, LogLine.main r ∈ shown logs site → r.steering = none)
    (hfits : ((shown logs site).map LogLine.size).sum < 2 ^ 63) :
    Balanced logs site ↔ ∀ l ∈ shown logs site, l.bucket.isSome ∧
      ∀ r, l = .main r → r.bytesSent = 0 := by
  have hline : ∀ l ∈ shown logs site, 0 ≤ l.seen ∧ l.seen ≤ l.size ∧
      (l.seen = l.size ↔ ∀ r, l = .main r → r.bytesSent = 0) := by
    intro l hl
    cases l with
    | combined r => exact ⟨Int.natCast_nonneg _, le_rfl, by simp [LogLine.seen, LogLine.size]⟩
    | main r =>
        have hnone := hplain r hl
        simp [LogLine.seen, LogLine.size, hnone, eq_comm]
  have hsize : ∀ l ∈ shown logs site, 0 ≤ l.size := fun l hl =>
    (hline l hl).1.trans (hline l hl).2.1
  have hle := List.sum_le_sum fun l hl => (hline l hl).2.1
  have hzero : 0 ≤ ((shown logs site).map LogLine.seen).sum := by
    refine List.sum_nonneg fun x hx => ?_
    obtain ⟨l, hl, rfl⟩ := List.mem_map.mp hx
    exact (hline l hl).1
  have hbytes : (∀ l ∈ shown logs site, l.bucket.isSome) →
      bucketBytes (dated (gathered logs site)) = ((shown logs site).map LogLine.size).sum := by
    intro hdated
    rw [hsame, bucketBytes_of_fits, sizes_dated hdated]
    · intro p hp
      obtain ⟨l, hl, hpair⟩ := List.mem_filterMap.mp hp
      obtain ⟨ts, -, rfl⟩ := Option.map_eq_some_iff.mp hpair
      exact hsize l hl
    · rw [sizes_dated hdated]
      exact hfits
  have hseen : wrap64 ((shown logs site).map LogLine.seen).sum =
      ((shown logs site).map LogLine.seen).sum :=
    wrap64_of_fits ⟨by omega, by omega⟩
  constructor
  · rintro ⟨hrequests, hsum⟩
    rw [hsame] at hrequests
    have hdated := (dated_length_iff _).mp hrequests
    rw [hseen, hbytes hdated] at hsum
    refine fun l hl => ⟨hdated l hl, (hline l hl).2.2.mp ?_⟩
    by_contra hne
    have hlt := List.sum_lt_sum LogLine.seen LogLine.size (fun l hl => (hline l hl).2.1)
      ⟨l, hl, lt_of_le_of_ne (hline l hl).2.1 hne⟩
    exact hlt.ne hsum
  · intro h
    have hdated : ∀ l ∈ shown logs site, l.bucket.isSome := fun l hl => (h l hl).1
    refine ⟨?_, ?_⟩
    · rw [hsame]
      exact (dated_length_iff _).mpr hdated
    · rw [hseen, hbytes hdated]
      refine congrArg List.sum (List.map_congr_left fun l hl => ?_)
      exact (hline l hl).2.2.mpr (h l hl).2

/-- The two counts agree on a site if and only if as many lines are shown for it as lines
with a time are gathered for it, and their bytes add up to the same. For a site with one log,
whose main lines have no value that looks like a status and a size, each line has to have a
time and no bytes may have been sent for a main line. -/
theorem traffic_counters_agree_iff {logs : List RecordLog} {listing : List LogFile}
    {order : List (Σ _ : BucketKey, Counters)} {t : CollectorState}
    (hnames : (logs.map RecordLog.name).Nodup)
    (hshort : ∀ log ∈ logs, ∀ l ∈ log.lines, l.bytes.length < 64 * 1024)
    (hpass : CollectorState.step ⟨logs.map RecordLog.file, fun _ => 0, fun _ => 0⟩
      (.collect listing order) = some t) (site : Text) :
    (((nginxTraffic (logs.map RecordLog.file)).sites.lookup site).getD 0 =
        storedFor t.table order site ↔ Balanced logs site) ∧
      (gathered logs site = shown logs site →
        (∀ r, LogLine.main r ∈ shown logs site → r.steering = none) →
        ((shown logs site).map LogLine.size).sum < 2 ^ 63 →
        (((nginxTraffic (logs.map RecordLog.file)).sites.lookup site).getD 0 =
            storedFor t.table order site ↔
          ∀ l ∈ shown logs site, l.bucket.isSome ∧ ∀ r, l = .main r → r.bytesSent = 0)) := by
  have hnodup : ((logs.map RecordLog.file).map LogFile.name).Nodup := by
    rw [List.map_map]
    exact hnames
  have hhits : CollectorState.unreadHits ⟨logs.map RecordLog.file, fun _ => 0, fun _ => 0⟩ =
      logs.flatMap fun log => hitsOf log.name log.file.content := by
    rw [CollectorState.unreadHits, List.flatMap_map]
    rfl
  obtain ⟨hkeys, hmem⟩ := collect_rows hnodup hpass
  have htable : ∀ key, t.table key =
      (tally key (logs.flatMap fun log => hitsOf log.name log.file.content)).wrap := by
    intro key
    rw [collect_table hnodup hpass key, CollectorState.delta, hhits]
    exact zero_add _
  rw [hhits] at hmem
  have hagree : ((nginxTraffic (logs.map RecordLog.file)).sites.lookup site).getD 0 =
      storedFor t.table order site ↔ Balanced logs site := by
    rw [nginxTraffic_lookup hshort, storedFor_eq hkeys hmem htable, sitePairs_hits,
      TrafficSite.mk.injEq, Nat.cast_inj]
    refine ⟨?_, fun h => ⟨h.requests, h.bytes⟩⟩
    rintro ⟨hrequests, hbytes⟩
    exact ⟨hrequests, hbytes⟩
  exact ⟨hagree, fun hsame hplain hfits =>
    hagree.trans (balanced_plain_iff hsame hplain hfits)⟩

def demoTime : LocalTime where
  year := 2026
  month := 6
  day := 14
  hour := 10
  min := 0
  sec := 2
  west := false
  zoneHour := 0
  zoneMin := 0
  year_mem := datedRequest.timeLocal.year_mem
  month_mem := datedRequest.timeLocal.month_mem
  day_mem := by decide
  clock_lt := datedRequest.timeLocal.clock_lt
  zone_lt := datedRequest.timeLocal.zone_lt

def noAddress : Address := ⟨[], by simp⟩

/-- A request for which 89 bytes were sent, in the combined format. -/
def combinedDemo : CombinedRecord where
  remoteAddr := noAddress
  remoteUser := none
  timeLocal := demoTime
  request := none
  status := 404
  bodyBytesSent := 89
  httpReferer := none
  httpUserAgent := none
  status_lt := datedRequest.status_lt
  bodyBytesSent_lt := datedRequest.bytesSent_lt

/-- The same request in the main format. -/
def mainDemo : AccessRecord where
  remoteAddr := noAddress
  realipRemoteAddr := noAddress
  remoteUser := none
  timeLocal := demoTime
  status := 404
  bytesSent := 89
  upstreamBytesReceived := none
  httpReferer := none
  httpUserAgent := none
  httpXForwardedFor := none
  queryString := none
  uri := none
  requestMethod := none
  upstreamResponseTime := none
  requestTime := none
  sentHttpContentType := none
  status_lt := datedRequest.status_lt
  bytesSent_lt := datedRequest.bytesSent_lt

/-- One log, and the pass over it that starts with an empty table. -/
def demoPass (log : RecordLog) (site : Text) : Option CollectorState :=
  CollectorState.step ⟨[log].map RecordLog.file, fun _ => 0, fun _ => 0⟩
    (.collect [log.file] [⟨⟨63917028000, site⟩, demoCounted⟩])

def combinedLog : RecordLog := ⟨"access-a.log".toList, [.combined combinedDemo]⟩

def mainLog : RecordLog := ⟨"access.log".toList, [.main mainDemo]⟩

theorem traffic_counters_agree_combined :
    ∃ t, demoPass combinedLog "a".toList = some t ∧
      ((nginxTraffic [combinedLog.file]).sites.lookup "a".toList).getD 0 =
        storedFor t.table [⟨⟨63917028000, "a".toList⟩, demoCounted⟩] "a".toList := by
  have hsome : (demoPass combinedLog "a".toList).isSome = true := by decide +kernel
  obtain ⟨t, ht⟩ := Option.isSome_iff_exists.mp hsome
  have hshort : ∀ log ∈ [combinedLog], ∀ l ∈ log.lines, l.bytes.length < 64 * 1024 := by
    decide +kernel
  refine ⟨t, ht, ?_⟩
  exact (@traffic_counters_agree_iff [combinedLog] _ _ _ (by decide) hshort ht _).1.mpr
    ⟨by decide +kernel, by decide +kernel⟩

/-- The service reads the last word of a line in the main format for its size. -/
theorem main_bytes_not_seen :
    ∃ t, demoPass mainLog "default".toList = some t ∧
      (nginxTraffic [mainLog.file]).sites.lookup "default".toList = some ⟨1, 0⟩ ∧
      storedFor t.table [⟨⟨63917028000, "default".toList⟩, demoCounted⟩] "default".toList =
        ⟨1, 89⟩ := by
  have hstored : (demoPass mainLog "default".toList).map (fun t => storedFor t.table
      [⟨⟨63917028000, "default".toList⟩, demoCounted⟩] "default".toList) = some ⟨1, 89⟩ := by
    decide +kernel
  obtain ⟨t, ht, htable⟩ := Option.map_eq_some_iff.mp hstored
  exact ⟨t, ht, by decide +kernel, htable⟩

end GoSite.NginxTraffic
