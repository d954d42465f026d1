import GoSite.FilterEval
import GoSite.SqlWhere

/-!
# Truth of a condition on a stored row

Conditions follow the three-valued logic of SQLite. Text is compared exactly and
LIKE ignores the case of ASCII letters only. An integer column is compared with
the number a text argument looks like; every number comes before every text.
Text is taken without NUL characters.
-/
namespace GoSite.Observability
open BooleanTrees

inductive SqlValue where
  | null
  | int (n : ℤ)
  | text (s : String)
  deriving Repr, DecidableEq

/-- The number a text is turned into by numeric affinity, if it looks like one. -/
structure Sqlite where
  numeric : String → Option ℚ

inductive LikeToken where
  | anyString
  | anyChar
  | lit (c : Char)
  deriving Repr, DecidableEq

/-- The pattern of a LIKE, read after an escape character or not. An escape
character at its end matches nothing. -/
@[grind] def likeTokens (esc : Option Char) : Bool → List Char → Option (List LikeToken)
  | false, [] => some []
  | true, [] => none
  | true, c :: cs => (likeTokens esc false cs).map (.lit c :: ·)
  | false, c :: cs =>
      if c = '%' then (likeTokens esc false cs).map (.anyString :: ·)
      else if esc = some c then likeTokens esc true cs
      else if c = '_' then (likeTokens esc false cs).map (.anyChar :: ·)
      else (likeTokens esc false cs).map (.lit c :: ·)

/-- Any characters, then `k`. -/
@[grind] def anyText (k : List Char → Bool) : List Char → Bool
  | [] => k []
  | c :: cs => k (c :: cs) || anyText k cs

def likeMatch : List LikeToken → List Char → Bool
  | [], text => text.isEmpty
  | .anyString :: ts, text => anyText (likeMatch ts) text
  | .anyChar :: _, [] => false
  | .anyChar :: ts, _ :: cs => likeMatch ts cs
  | .lit _ :: _, [] => false
  | .lit c :: ts, d :: cs => d.toLower = c.toLower && likeMatch ts cs

def sqlLike (esc : Option Char) (text pattern : String) : Bool :=
  match likeTokens esc false pattern.toList with
  | none => false
  | some ts => likeMatch ts text.toList

/-- `regexpSQLFn`. A value that is no text arrives as the empty string. -/
def regexpSQLFn (g : GoText) (pattern value : String) : Bool :=
  if pattern = "" then true else if value = "" then false else g.isMatch pattern value

/-- The value of a column. The tables do not have the others. -/
def StoredRow.column : StoredRow → Column → SqlValue
  | .audit row, .userEmail => .text row.userEmail
  | .audit row, .action => .text row.action
  | .audit row, .resourceType => .text row.resourceType
  | .audit row, .resourceID => .text row.resourceID
  | .audit row, .domain => .text row.domain
  | .audit row, .status => .text row.status
  | .audit row, .message => .text row.message
  | .job row, .jobType => .text row.jobType
  | .job row, .name => .text row.name
  | .job row, .status => .text row.status
  | .job row, .output => .text row.output
  | .job row, .error => .text row.error
  | .access row, .site => .text row.site
  | .access row, .statusCode => (row.statusCode.map SqlValue.int).getD .null
  | .access row, .rawPreview => .text row.rawPreview
  | .error row, .site => .text row.site
  | .error row, .statusCode => (row.statusCode.map SqlValue.int).getD .null
  | .error row, .rawPreview => .text row.rawPreview
  | _, _ => .null

def SqlValue.asText : SqlValue → SqlValue
  | .int n => .text (toString n)
  | v => v

/-- The value of the left side. Only an integer column is cast to INTEGER. -/
def Operand.value (row : StoredRow) : Operand → SqlValue
  | .column col => row.column col
  | .castText col => (row.column col).asText
  | .castInteger col => row.column col

/-- A comparison of an integer column with a text argument. -/
def compareInt (db : Sqlite) (op : SqlOp) (n : ℤ) (arg : String) : Bool :=
  match db.numeric arg, op with
  | some r, .eq => n = r
  | some r, .ne => n ≠ r
  | some r, .gt => n > r
  | some r, .gte => n ≥ r
  | some r, .lt => n < r
  | some r, .lte => n ≤ r
  | none, .ne => true
  | none, .lt => true
  | none, .lte => true
  | _, _ => false

/-- A comparison of two texts. -/
def compareText (g : GoText) (op : SqlOp) (s arg : String) : Bool :=
  match op with
  | .eq => s = arg
  | .ne => s ≠ arg
  | .gt => arg < s
  | .gte => ¬ s < arg
  | .lt => s < arg
  | .lte => ¬ arg < s
  | .like => sqlLike none s arg
  | .likeEscape => sqlLike (some '\\') s arg
  | .regexp => regexpSQLFn g arg s

/-- The truth of a comparison with a value. NULL compares with nothing, but the
registered function is called for it. -/
def SqlValue.truth (g : GoText) (db : Sqlite) (op : SqlOp) (arg : String) : SqlValue → Option Bool
  | .text s => some (compareText g op s arg)
  | .null => if op = .regexp then some (regexpSQLFn g arg "") else none
  | .int n =>
      match op with
      | .regexp => some (regexpSQLFn g arg "")
      | .like => some (sqlLike none (toString n) arg)
      | .likeEscape => some (sqlLike (some '\\') (toString n) arg)
      | op => some (compareInt db op n arg)

/-- The truth of a comparison on a row. -/
def StoredRow.truth (g : GoText) (db : Sqlite) (row : StoredRow) (a : SqlAtom) : Option Bool :=
  (a.lhs.value row).truth g db a.op a.arg

end GoSite.Observability
