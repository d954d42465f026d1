import GoSite.EventIds
import GoSite.EventStream
import GoSite.JsonTexts

/-!
# Frames of the live tail

Each event of the tail is written as an `id` line and a `data` line. The data is JSON and
stands on one line whatever the event holds. The id ends with the first 64 bytes of the
message as they are, and a line break, a NUL or half of a character among them does not
survive.
-/
namespace GoSite.TailFrames
open GoStrings JsonTexts
open EventStream (BreakFree fieldOf streamLines unlines normalizeBreaks)
open GoTimes (formatRFC3339Nano)
open Observability (idBar timeChars format_subset_timeChars HasFourDigitYear sourceAudit sourceJob
  sourceAccess sourceError)

/-! ## The reader -/

/-- What a listener sees of a message. -/
structure Message where
  data : Text
  lastEventId : Text
  deriving Repr, DecidableEq

/-- The buffers of the reader. -/
structure StreamBuffer where
  data : Text
  type : Text
  lastEventId : Text
  deriving Repr, DecidableEq

def StreamBuffer.clean : StreamBuffer := ⟨[], [], []⟩

/-- An id with a NUL is ignored. Reconnection times are not looked at. -/
def processField (b : StreamBuffer) (field : Text × Text) : StreamBuffer :=
  if field.1 = "event".toList then { b with type := field.2 }
  else if field.1 = "data".toList then { b with data := b.data ++ field.2 ++ ['\n'] }
  else if field.1 = "id".toList then
    if Char.ofNat 0 ∈ field.2 then b else { b with lastEventId := field.2 }
  else b

/-- Dispatch of a message. One without data is forgotten. -/
def StreamBuffer.dispatch (b : StreamBuffer) : Option Message :=
  if b.data = [] then none else some ⟨b.data.dropLast, b.lastEventId⟩

/-- The messages of the lines. The last id outlives its message. -/
@[grind] def parseLines : StreamBuffer → List Text → List Message
  | _, [] => []
  | b, line :: ls =>
      if line = [] then
        b.dispatch.toList ++ parseLines { b with data := [], type := [] } ls
      else if line.head? = some ':' then parseLines b ls
      else parseLines (processField b (fieldOf line)) ls

/-- The messages of a body that is read from its beginning. -/
def parseMessages (body : Text) : List Message := parseLines .clean (streamLines body)

/-- U+FEFF. -/
def byteOrderMark : Char := Char.ofNat 0xFEFF

/-- A decoder of UTF-8. It reads texts back, but for a mark at their beginning. What it
makes of other bytes is left open. -/
structure Utf8Decoder where
  run : List UInt8 → Text
  run_encode : ∀ s : String, s.toList.head? ≠ some byteOrderMark → run (encode s) = s.toList

/-! ## The writer -/

/-- An event as its row has it, in bytes. -/
structure QueryEvent where
  id : List UInt8
  ts : ℤ
  source : String
  action : List UInt8
  user : List UInt8
  message : List UInt8
  metadata : List (List UInt8 × JsonValue)

def eventID (source : String) (ts : ℤ) (message : List UInt8) : List UInt8 :=
  encode source ++ idBar :: (encode (String.ofList (formatRFC3339Nano ts)) ++
    idBar :: message.take 64)

/-- The assignment `meta[key] = v`. -/
def setField (fields : List (List UInt8 × JsonValue)) (key : String) (v : JsonValue) :
    List (List UInt8 × JsonValue) :=
  if fields.any (·.1 = encode key) then
    fields.map fun field => if field.1 = encode key then (field.1, v) else field
  else fields ++ [(encode key, v)]

structure AuditLog where
  timestamp : ℤ
  resourceType : List UInt8
  resourceID : List UInt8
  domain : List UInt8
  status : List UInt8
  action : List UInt8
  userEmail : List UInt8
  message : List UInt8
  metaJSON : List UInt8

structure JobRun where
  createdAt : ℤ
  jobType : List UInt8
  name : List UInt8
  status : List UInt8
  error : List UInt8
  output : List UInt8

structure LogEvent where
  timestamp : ℤ
  site : List UInt8
  statusCode : Option ℤ
  bytes : Option ℤ
  rawPreview : List UInt8

/-- A row of a source. -/
inductive Row where
  | audit (row : AuditLog)
  | job (row : JobRun)
  | log (access : Bool) (row : LogEvent)

section
variable (unmarshal : List UInt8 → Option (List (List UInt8 × JsonValue)))

/-- The fields that the meta text of an audit row leaves in the map. There are none where
it leaves no map to assign to, at which the assignments panic. -/
def auditFields (row : AuditLog) : Option (List (List UInt8 × JsonValue)) :=
  if row.metaJSON ≠ [] ∧ row.metaJSON ≠ encode "\x7b\x7d" then unmarshal row.metaJSON
  else some []

def mapAuditEvent (row : AuditLog) : Option QueryEvent :=
  (auditFields unmarshal row).map fun fields =>
    let fields := setField fields "resource_type" (.string row.resourceType)
    let fields := setField fields "resource_id" (.string row.resourceID)
    let fields := setField fields "domain" (.string row.domain)
    let fields := setField fields "status" (.string row.status)
    ⟨eventID sourceAudit row.timestamp row.message, row.timestamp, sourceAudit, row.action,
      row.userEmail, row.message, fields⟩

def jobMessage (row : JobRun) : List UInt8 :=
  if row.error ≠ [] then row.error else if row.output ≠ [] then row.output else row.name

def mapJobEvent (row : JobRun) : QueryEvent :=
  ⟨eventID sourceJob row.createdAt (jobMessage row), row.createdAt, sourceJob, row.jobType, [],
    jobMessage row, [(encode "name", .string row.name), (encode "status", .string row.status)]⟩

def mapLogEvent (source : String) (row : LogEvent) : QueryEvent :=
  let fields := [(encode "site", .string row.site)]
  let fields := match row.statusCode with
    | none => fields
    | some code => setField fields "status_code" (.int code)
  let fields := match row.bytes with
    | none => fields
    | some bytes => setField fields "bytes" (.int bytes)
  ⟨eventID source row.timestamp row.rawPreview, row.timestamp, source, encode "log.line", [],
    row.rawPreview, fields⟩

def Row.event : Row → Option QueryEvent
  | .audit row => mapAuditEvent unmarshal row
  | .job row => some (mapJobEvent row)
  | .log access row => some (mapLogEvent (if access then sourceAccess else sourceError) row)

end

/-- `json.Marshal` of an event. A time fails whose year has no four digits. -/
def marshal (ev : QueryEvent) : Option Text :=
  if ¬ HasFourDigitYear ev.ts then none
  else some (objectText [
    (encode "id", quoteString ev.id),
    (encode "ts", '"' :: (formatRFC3339Nano ev.ts ++ ['"'])),
    (encode "source", quoteString (encode ev.source)),
    (encode "action", quoteString ev.action),
    (encode "user", quoteString ev.user),
    (encode "message", quoteString ev.message),
    (encode "meta", valueText (.object ev.metadata))])

/-- What `Tail` writes for an event. -/
def frame (ev : QueryEvent) : List UInt8 :=
  match marshal ev with
  | none => []
  | some data =>
      (if ev.id = [] then [] else encode "id: " ++ ev.id ++ encode "\n") ++
        (encode "data: " ++ encode (String.ofList data) ++ encode "\n\n")

/-- The reader recovers one message, with the JSON of the event and its id. -/
def Recovered (utf8 : Utf8Decoder) (ev : QueryEvent) : Prop :=
  ∃ message, parseMessages (utf8.run (frame ev)) = [message] ∧
    marshal ev = some message.data ∧ encode (String.ofList message.lastEventId) = ev.id

/-- What an id shows of a message is UTF-8, without line breaks and NULs. -/
def ReadableStart (message : List UInt8) : Prop :=
  (∀ b ∈ message.take 64, b ≠ 0 ∧ b ≠ 10 ∧ b ≠ 13) ∧
    encode (decode (message.take 64)) = message.take 64

instance (message : List UInt8) : Decidable (ReadableStart message) :=
  inferInstanceAs (Decidable (_ ∧ _))

/-! ## What is read -/

/-- The last event id of a buffer or a message is one line without a NUL. -/
def CleanId (id : Text) : Prop := BreakFree id ∧ Char.ofNat 0 ∉ id

theorem value_subset (line : Text) : (fieldOf line).2 ⊆ line := by
  rw [fieldOf]
  have hdrop : line.dropWhile (· ≠ ':') ⊆ line := (List.dropWhile_suffix _).subset
  split
  · next heq =>
    intro c hc
    exact hdrop (heq ▸ List.mem_cons_of_mem _ (List.mem_cons_of_mem _ hc))
  · next heq =>
    intro c hc
    exact hdrop (heq ▸ List.mem_cons_of_mem _ hc)
  · exact List.nil_subset _

theorem BreakFree.of_subset {s t : Text} (h : BreakFree t) (hsubset : s ⊆ t) : BreakFree s :=
  ⟨fun hm => h.1 (hsubset hm), fun hm => h.2 (hsubset hm)⟩

theorem processField_cleanId {b : StreamBuffer} {line : Text} (hb : CleanId b.lastEventId)
    (hline : BreakFree line) : CleanId (processField b (fieldOf line)).lastEventId := by
  rw [processField]
  split_ifs with hevent hdata hid hnul
  · exact hb
  · exact hb
  · exact hb
  · exact ⟨BreakFree.of_subset hline (value_subset line), hnul⟩
  · exact hb

/-- No id that is read has a line break or a NUL in it. -/
theorem parseLines_cleanId {b : StreamBuffer} {ls : List Text} (hb : CleanId b.lastEventId)
    (hls : ∀ l ∈ ls, BreakFree l) : ∀ m ∈ parseLines b ls, CleanId m.lastEventId := by
  induction ls generalizing b with
  | nil => simp [parseLines]
  | cons line ls ih =>
      rw [List.forall_mem_cons] at hls
      rw [parseLines]
      split_ifs with hblank hcomment
      · intro m hm
        rcases List.mem_append.mp hm with hm | hm
        · rw [StreamBuffer.dispatch] at hm
          split_ifs at hm
          · simp at hm
          · obtain rfl : m = _ := by simpa using hm
            exact hb
        · have hnext : CleanId ({ b with data := [], type := [] } : StreamBuffer).lastEventId := hb
          exact ih hnext hls.2 m hm
      · exact ih hb hls.2
      · exact ih (processField_cleanId hb hls.1) hls.2

theorem streamLines_breakFree (body : Text) : ∀ l ∈ streamLines body, BreakFree l := by
  intro l hl
  have hmem := List.mem_of_mem_dropLast hl
  exact ⟨not_mem_of_mem_splitOn hmem, fun hm =>
    EventStream.cr_not_mem_normalizeBreaks body (mem_of_mem_splitOn hmem hm)⟩

theorem parseMessages_cleanId (body : Text) : ∀ m ∈ parseMessages body, CleanId m.lastEventId :=
  parseLines_cleanId (show CleanId [] by simp [CleanId, BreakFree]) (streamLines_breakFree body)

/-! ## What is written -/

theorem breakFree_of_noControl {t : Text} (h : NoControl t) : BreakFree t :=
  ⟨fun hm => absurd (h _ hm) (by decide), fun hm => absurd (h _ hm) (by decide)⟩

theorem noControl_format (ts : ℤ) : NoControl (formatRFC3339Nano ts) :=
  (by decide : NoControl timeChars).of_subset (format_subset_timeChars ts)

/-- The JSON of an event stands on one line. -/
theorem breakFree_marshal {ev : QueryEvent} {data : Text} (h : marshal ev = some data) :
    BreakFree data := by
  rw [marshal] at h
  split_ifs at h
  obtain rfl := Option.some.inj h
  refine breakFree_of_noControl (noControl_objectText fun field hfield => ?_)
  simp only [List.mem_cons, List.not_mem_nil, or_false] at hfield
  rcases hfield with rfl | rfl | rfl | rfl | rfl | rfl | rfl
  · exact noControl_quoteString _
  · simp [noControl_format]
  · exact noControl_quoteString _
  · exact noControl_quoteString _
  · exact noControl_quoteString _
  · exact noControl_quoteString _
  · exact noControl_valueText _

/-- An id on one line and data on another are read as one message. -/
theorem parseMessages_lines {id data : Text} (hid : CleanId id) (hdata : BreakFree data) :
    parseMessages (unlines ["id: ".toList ++ id, "data: ".toList ++ data, []]) = [⟨data, id⟩] := by
  have hlines : ∀ l ∈ ["id: ".toList ++ id, "data: ".toList ++ data, []], BreakFree l := by
    simp only [List.mem_cons, List.not_mem_nil, or_false]
    rintro l (rfl | rfl | rfl)
    · simpa [BreakFree] using hid.1
    · simpa [BreakFree] using hdata
    · simp [BreakFree]
  have hidField : fieldOf ("id: ".toList ++ id) = ("id".toList, id) :=
    EventStream.fieldOf_append (by decide : ':' ∉ "id".toList) id
  have hdataField : fieldOf ("data: ".toList ++ data) = ("data".toList, data) :=
    EventStream.fieldOf_append (by decide : ':' ∉ "data".toList) data
  have hidStep : processField .clean ("id".toList, id) = ⟨[], [], id⟩ := by
    simp [processField, StreamBuffer.clean, hid.2]
  have hdataStep : processField ⟨[], [], id⟩ ("data".toList, data) = ⟨data ++ ['\n'], [], id⟩ := by
    simp [processField]
  rw [parseMessages, EventStream.streamLines_unlines hlines]
  rw [parseLines, if_neg (by simp), if_neg (by simp), hidField, hidStep]
  rw [parseLines, if_neg (by simp), if_neg (by simp), hdataField, hdataStep]
  rw [parseLines, if_pos rfl, parseLines]
  simp [StreamBuffer.dispatch]

/-- What follows a text in the bytes of a text is a text. -/
theorem encode_of_append {s t : String} {rest : List UInt8} (h : encode t = encode s ++ rest) :
    rest = encode (decode rest) := by
  have hruns := congrArg (fun bytes => (runes bytes).map Rune.char) h
  have hsplit : t.toList = s.toList ++ (decode rest).toList := by
    have hleft : (runes (encode t)).map Rune.char = t.toList := by
      simp [runes_encode, Function.comp_def]
    have hright : (runes (encode s ++ rest)).map Rune.char =
        s.toList ++ (decode rest).toList := by
      rw [encode, runes_flatMap_append]
      simp [decode, Function.comp_def]
    exact hleft.symm.trans (hruns.trans hright)
  have htext : t = s ++ decode rest := String.toList_inj.mp (by simpa using hsplit)
  rw [htext, encode_append] at h
  exact (List.append_cancel_left h).symm

/-- The text before the message in an id. -/
def idStart (source : String) (ts : ℤ) : String :=
  source ++ "|" ++ String.ofList (formatRFC3339Nano ts) ++ "|"

theorem eventID_eq (source : String) (ts : ℤ) (message : List UInt8) :
    eventID source ts message = encode (idStart source ts) ++ message.take 64 := by
  have hbar : encode "|" = [idBar] := by decide
  simp [eventID, idStart, hbar]

section
variable {unmarshal : List UInt8 → Option (List (List UInt8 × JsonValue))} {row : Row}
  {ev : QueryEvent}

/-- The id of an event is that of its source, time and message. -/
theorem event_id (h : row.event unmarshal = some ev) :
    ev.id = eventID ev.source ev.ts ev.message ∧
      ev.source ∈ [sourceAudit, sourceJob, sourceAccess, sourceError] := by
  cases row with
  | audit row =>
      obtain ⟨fields, -, rfl⟩ := Option.map_eq_some_iff.mp h
      exact ⟨rfl, List.mem_cons_self⟩
  | job row =>
      obtain rfl := Option.some.inj h
      exact ⟨rfl, List.mem_cons_of_mem _ List.mem_cons_self⟩
  | log access row =>
      obtain rfl := Option.some.inj h
      have hsource : ∀ access : Bool, (if access then sourceAccess else sourceError) ∈
          [sourceAudit, sourceJob, sourceAccess, sourceError] := by decide
      exact ⟨rfl, hsource access⟩

/-- The line of the id begins as no mark and no comment. -/
theorem idStart_clean {source : String}
    (h : source ∈ [sourceAudit, sourceJob, sourceAccess, sourceError]) (ts : ℤ) :
    CleanId (idStart source ts).toList := by
  have hsource : ∀ s ∈ [sourceAudit, sourceJob, sourceAccess, sourceError],
      NoControl s.toList := by decide
  have hcontrol : NoControl (idStart source ts).toList := by
    simp [idStart, hsource source h, noControl_format]
  exact ⟨breakFree_of_noControl hcontrol, fun hm => absurd (hcontrol _ hm) (by decide)⟩

theorem CleanId.append {s t : Text} (hs : CleanId s) (ht : CleanId t) : CleanId (s ++ t) := by
  simp only [CleanId, BreakFree, List.mem_append, not_or] at hs ht ⊢
  tauto

theorem cleanId_of_readable {message : List UInt8} (h : ReadableStart message) :
    CleanId (decode (message.take 64)).toList := by
  have hbyte : ∀ c : Char, c.toNat < 128 → c ∈ (decode (message.take 64)).toList →
      UInt8.ofNat c.toNat ∈ message.take 64 := fun c hc hm => mem_of_mem_decode hc hm
  refine ⟨⟨fun hm => ?_, fun hm => ?_⟩, fun hm => ?_⟩
  · exact (h.1 _ (hbyte _ (by decide) hm)).2.1 (by decide)
  · exact (h.1 _ (hbyte _ (by decide) hm)).2.2 (by decide)
  · exact (h.1 _ (hbyte _ (by decide) hm)).1 (by decide)

theorem readable_of_cleanId {message : List UInt8}
    (h : message.take 64 = encode (decode (message.take 64)))
    (hclean : CleanId (decode (message.take 64)).toList) : ReadableStart message := by
  have hbyte : ∀ b, IsAscii b → b ∈ message.take 64 →
      Char.ofNat b.toNat ∈ (decode (message.take 64)).toList := by
    intro b hb hm
    rw [h] at hm
    exact Observability.ofNat_mem_of_mem_encode hb hm
  refine ⟨fun b hb => ⟨?_, ?_, ?_⟩, h.symm⟩
  · rintro rfl
    exact hclean.2 (hbyte 0 (by decide) hb)
  · rintro rfl
    exact hclean.1.1 (hbyte 10 (by decide) hb)
  · rintro rfl
    exact hclean.1.2 (hbyte 13 (by decide) hb)

variable (utf8 : Utf8Decoder)

theorem recovered_of_readable (h : row.event unmarshal = some ev) (hyear : HasFourDigitYear ev.ts)
    (hstart : ReadableStart ev.message) : Recovered utf8 ev := by
  obtain ⟨hid, hsource⟩ := event_id h
  obtain ⟨data, hdata⟩ : ∃ data, marshal ev = some data := ⟨_, if_neg (not_not.mpr hyear)⟩
  obtain ⟨id, hidText⟩ : ∃ id, id = idStart ev.source ev.ts ++ decode (ev.message.take 64) :=
    ⟨_, rfl⟩
  have hidBytes : ev.id = encode id := by
    rw [hid, eventID_eq, hidText, encode_append, hstart.2]
  have hclean : CleanId id.toList := by
    rw [hidText, String.toList_append]
    exact (idStart_clean hsource _).append (cleanId_of_readable hstart)
  have hne : ev.id ≠ [] := by
    rw [hid, eventID]
    simp
  have hframe : frame ev = encode ("id: " ++ id ++ "\n" ++
      ("data: " ++ String.ofList data ++ "\n\n")) := by
    rw [frame, hdata]
    dsimp only
    rw [if_neg hne, hidBytes]
    simp only [encode_append]
  have hlines : ("id: " ++ id ++ "\n" ++ ("data: " ++ String.ofList data ++ "\n\n")).toList =
      unlines ["id: ".toList ++ id.toList, "data: ".toList ++ data, []] := by
    simp
  have hrun : utf8.run (frame ev) =
      unlines ["id: ".toList ++ id.toList, "data: ".toList ++ data, []] := by
    rw [hframe, utf8.run_encode _ ?_, hlines]
    rw [hlines]
    show some 'i' ≠ some byteOrderMark
    decide
  refine ⟨⟨data, id.toList⟩, ?_, hdata, ?_⟩
  · rw [hrun]
    exact parseMessages_lines hclean (breakFree_marshal hdata)
  · rw [hidBytes, String.ofList_toList]

theorem readable_of_recovered (h : row.event unmarshal = some ev) (hrec : Recovered utf8 ev) :
    HasFourDigitYear ev.ts ∧ ReadableStart ev.message := by
  obtain ⟨message, hparse, hdata, hid⟩ := hrec
  obtain ⟨hevent, -⟩ := event_id h
  have hyear : HasFourDigitYear ev.ts := by
    rw [marshal] at hdata
    split_ifs at hdata with hyear
    exact hyear
  have hclean : CleanId message.lastEventId :=
    parseMessages_cleanId _ message (hparse ▸ List.mem_cons_self)
  rw [hevent, eventID_eq] at hid
  have hrest := encode_of_append hid
  have htext : message.lastEventId =
      (idStart ev.source ev.ts).toList ++ (decode (ev.message.take 64)).toList := by
    rw [hrest, ← encode_append] at hid
    have hdecode := congrArg decode hid
    rw [decode_encode, decode_encode] at hdecode
    simpa using congrArg String.toList hdecode
  refine ⟨hyear, readable_of_cleanId hrest ?_⟩
  rw [htext] at hclean
  simp only [CleanId, BreakFree, List.mem_append, not_or] at hclean ⊢
  tauto

end

/-- The frame of an event is read back where the id shows a readable start of the message. -/
theorem tail_frame_recovered_iff (utf8 : Utf8Decoder)
    (unmarshal : List UInt8 → Option (List (List UInt8 × JsonValue))) {row : Row}
    {ev : QueryEvent} (h : row.event unmarshal = some ev) :
    Recovered utf8 ev ↔ HasFourDigitYear ev.ts ∧ ReadableStart ev.message :=
  ⟨readable_of_recovered utf8 h, fun hboth => recovered_of_readable utf8 h hboth.1 hboth.2⟩

/-- The decoder that drops a mark and reads each bad byte as U+FFFD. -/
def replacingUtf8 : Utf8Decoder where
  run bytes :=
    match (decode bytes).toList with
    | [] => []
    | c :: cs => if c = byteOrderMark then cs else c :: cs
  run_encode s hs := by
    rw [decode_encode]
    cases hlist : s.toList with
    | nil => rfl
    | cons c cs =>
        rw [hlist] at hs
        exact if_neg fun heq => hs (congrArg some heq)

/-- A job at the beginning of 2026. -/
def outputJob (output : String) : JobRun :=
  ⟨63902822400000000000, encode "cron", encode "backup", encode "ok", [], encode output⟩

theorem tail_frame_recovered_one_line :
    Recovered replacingUtf8 (mapJobEvent (outputJob "3 files copied")) :=
  (tail_frame_recovered_iff replacingUtf8 (fun _ => none)
    (rfl : (Row.job (outputJob "3 files copied")).event _ = _)).mpr (by decide)

/-- The second line of a job's output is no part of the id that is read. -/
theorem tail_frame_loses_second_line :
    ∃ ev, (Row.job (outputJob "copying\n3 files copied")).event (fun _ => none) = some ev ∧
      HasFourDigitYear ev.ts ∧ ¬ Recovered replacingUtf8 ev := by
  refine ⟨_, rfl, by decide, fun hrec => ?_⟩
  have hevent : (Row.job (outputJob "copying\n3 files copied")).event (fun _ => none) = some _ := rfl
  have hstart := (readable_of_recovered replacingUtf8 hevent hrec).2
  exact (hstart.1 10 (by decide)).2.1 rfl

end GoSite.TailFrames
