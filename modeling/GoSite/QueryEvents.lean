import GoSite.SearchFilter

/-!
# Stored rows and the events they are mapped to

Search returns rows of three tables as events of one shape. The status columns
of the audit log and of the job runs are restricted by a `CHECK`, and the log
ingestor stores one line a row; a row carries that with it.
-/
namespace GoSite.Observability

def sourceAudit : String := "audit"
def sourceJob : String := "job"
def sourceAccess : String := "access"
def sourceError : String := "error"

/-- A normalized event. The values of `meta` are the texts `fmt.Sprint` gives
for them, and a key that is written again hides the older entry. -/
structure QueryEvent where
  ts : ℤ
  source : String
  action : String
  user : String
  message : String
  metadata : List (String × String)
  deriving Repr, DecidableEq

def auditStatuses : List String := ["ok", "failed"]

def jobStatuses : List String := ["pending", "running", "ok", "failed", "cancelled"]

/-- A row of `audit_logs`. `metadata` is its decoded `meta_json`. -/
structure AuditLog where
  timestamp : ℤ
  userEmail : String
  action : String
  resourceType : String
  resourceID : String
  domain : String
  status : String
  message : String
  metadata : List (String × String)
  status_mem : status ∈ auditStatuses

theorem ok_mem_auditStatuses : "ok" ∈ auditStatuses := by decide

/-- A row of `job_runs`. -/
structure JobRun where
  createdAt : ℤ
  jobType : String
  name : String
  status : String
  output : String
  error : String
  status_mem : status ∈ jobStatuses

/-- The log patterns take three digits for a status code. -/
def IsStatusCode (n : ℤ) : Prop := 0 ≤ n ∧ n < 1000

/-- A row of `log_events`. Its preview is the beginning of one line. -/
structure LogEvent where
  timestamp : ℤ
  site : String
  statusCode : Option ℤ
  bytes : Option ℤ
  rawPreview : String
  statusCode_digits : ∀ n ∈ statusCode, IsStatusCode n
  rawPreview_line : '\n' ∉ rawPreview.toList

theorem isStatusCode_of_none : ∀ n ∈ (none : Option ℤ), IsStatusCode n := by simp

/-- The loop body of `mapAuditEvents`. -/
def mapAuditEvent (row : AuditLog) : QueryEvent where
  ts := row.timestamp
  source := sourceAudit
  action := row.action
  user := row.userEmail
  message := row.message
  metadata := ("status", row.status) :: ("domain", row.domain) :: ("resource_id", row.resourceID) ::
    ("resource_type", row.resourceType) :: row.metadata

/-- The message of a job: its error, else its output, else its name. -/
def jobMessage (row : JobRun) : String :=
  if row.error ≠ "" then row.error else if row.output ≠ "" then row.output else row.name

/-- The loop body of `mapJobEvents`. -/
def mapJobEvent (row : JobRun) : QueryEvent where
  ts := row.createdAt
  source := sourceJob
  action := row.jobType
  user := ""
  message := jobMessage row
  metadata := [("name", row.name), ("status", row.status)]

/-- The loop body of `mapLogEvents`. -/
def mapLogEvent (source : String) (row : LogEvent) : QueryEvent where
  ts := row.timestamp
  source := source
  action := "log.line"
  user := ""
  message := row.rawPreview
  metadata :=
    (row.bytes.map fun n => ("bytes", toString n)).toList ++
      (row.statusCode.map fun n => ("status_code", toString n)).toList ++ [("site", row.site)]

/-- A stored row of one of the four kinds of source. -/
inductive StoredRow where
  | audit (row : AuditLog)
  | job (row : JobRun)
  | access (row : LogEvent)
  | error (row : LogEvent)

def StoredRow.kind : StoredRow → SourceKind
  | .audit _ => .audit
  | .job _ => .job
  | .access _ => .logAccess
  | .error _ => .logError

def StoredRow.event : StoredRow → QueryEvent
  | .audit row => mapAuditEvent row
  | .job row => mapJobEvent row
  | .access row => mapLogEvent sourceAccess row
  | .error row => mapLogEvent sourceError row

end GoSite.Observability
