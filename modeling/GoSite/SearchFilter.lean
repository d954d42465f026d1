import GoSite.BooleanTrees
import GoSite.GoStrings

/-!
# The filter AST and its SQL

A filter is a tree of predicates. For each kind of source it is compiled to the
text of a WHERE clause with `?` placeholders and the list of their arguments. A
predicate on a field the source does not have compiles to the empty text, and
the nodes above drop it.
-/
namespace GoSite.Observability
open BooleanTrees GoStrings

inductive Op where
  | contains
  | eq
  | ne
  | like
  | regexp
  | gt
  | gte
  | lt
  | lte
  deriving Repr, DecidableEq

/-- A leaf predicate. An empty field means the indexed text columns. -/
structure PredExpr where
  field : String
  op : Op
  value : String
  deriving Repr, DecidableEq

abbrev FilterExpr := BoolTree PredExpr

inductive SourceKind where
  | audit
  | job
  | logAccess
  | logError
  deriving Repr, DecidableEq

inductive Column where
  | userEmail
  | action
  | resourceType
  | resourceID
  | domain
  | status
  | message
  | jobType
  | name
  | output
  | error
  | site
  | statusCode
  | rawPreview
  deriving Repr, DecidableEq

def Column.text : Column → String
  | .userEmail => "user_email"
  | .action => "action"
  | .resourceType => "resource_type"
  | .resourceID => "resource_id"
  | .domain => "domain"
  | .status => "status"
  | .message => "message"
  | .jobType => "job_type"
  | .name => "name"
  | .output => "output"
  | .error => "error"
  | .site => "site"
  | .statusCode => "status_code"
  | .rawPreview => "raw_preview"

def auditFields : List (String × Column) :=
  [("user", .userEmail), ("user_email", .userEmail), ("action", .action),
    ("resource_type", .resourceType), ("resource_id", .resourceID), ("domain", .domain),
    ("status", .status), ("message", .message)]

def jobFields : List (String × Column) :=
  [("job_type", .jobType), ("type", .jobType), ("name", .name), ("status", .status),
    ("output", .output), ("error", .error), ("message", .name)]

def logAccessFields : List (String × Column) :=
  [("site", .site), ("status", .statusCode), ("status_code", .statusCode),
    ("message", .rawPreview), ("preview", .rawPreview)]

def logErrorFields : List (String × Column) :=
  [("site", .site), ("message", .rawPreview), ("preview", .rawPreview)]

def fieldsForKind : SourceKind → List (String × Column)
  | .audit => auditFields
  | .job => jobFields
  | .logAccess => logAccessFields
  | .logError => logErrorFields

/-- `fields[field]`. -/
def fieldColumn (kind : SourceKind) (field : String) : Option Column :=
  (fieldsForKind kind).lookup field

def freeTextColumns : SourceKind → List Column
  | .audit => [.userEmail, .action, .message]
  | .job => [.name, .output, .error, .jobType]
  | .logAccess | .logError => [.site, .rawPreview]

def isComparison : Op → Bool
  | .gt | .gte | .lt | .lte => true
  | _ => false

/-- The leaf case of `exprApplicable`. -/
def predApplicable (kind : SourceKind) (p : PredExpr) : Bool :=
  if p.field = "" then true
  else match fieldColumn kind p.field with
    | none => false
    | some col => if isComparison p.op ∧ col ≠ .statusCode then false else true

mutual
@[grind] def exprApplicable (kind : SourceKind) : FilterExpr → Bool
  | .and cs => if cs.length = 0 then false else allApplicable kind cs
  | .or cs => anyApplicable kind cs
  | .not c => exprApplicable kind c
  | .leaf p => predApplicable kind p

@[grind] def allApplicable (kind : SourceKind) : List FilterExpr → Bool
  | [] => true
  | c :: cs => if exprApplicable kind c then allApplicable kind cs else false

@[grind] def anyApplicable (kind : SourceKind) : List FilterExpr → Bool
  | [] => false
  | c :: cs => if exprApplicable kind c then true else anyApplicable kind cs
end

/-- The text of a condition and the arguments of its placeholders. No condition
is the empty text. -/
abbrev Fragment := String × List String

def hasStar (value : String) : Bool := '*' ∈ value.toList

def regexpSQL (col : Column) : String :=
  if col = .statusCode then "CAST(status_code AS TEXT)" else col.text

/-- The pattern `likeSQL` makes of a value with stars. A backslash in the value
is left as it is. -/
def escapeLike (pattern : String) : String :=
  let escaped := replaceAll '%' ['\\', '%'] pattern.toList
  let escaped := replaceAll '_' ['\\', '_'] escaped
  String.ofList (replaceAll '*' ['%'] escaped)

def likeSQL (col : Column) (pattern : String) : String × String :=
  let matchCol := if col = .statusCode then "CAST(status_code AS TEXT)" else col.text
  if hasStar pattern then (matchCol ++ " LIKE ? ESCAPE '\\'", escapeLike pattern)
  else (matchCol ++ " = ?", pattern)

/-- The loop body of `freeTextContains`. -/
def containsSQL (op : Op) (value : String) (col : Column) : String × String :=
  if op = .like ∨ hasStar value then likeSQL col value
  else (col.text ++ " LIKE ?", "%" ++ value ++ "%")

def freeTextContains (cols : List Column) (value : String) (op : Op) : Fragment :=
  let parts := cols.map (containsSQL op value)
  ("(" ++ join " OR " (parts.map Prod.fst) ++ ")", parts.map Prod.snd)

def freeTextRegexp (cols : List Column) (pattern : String) : Fragment :=
  ("(" ++ join " OR " (cols.map fun col => regexpSQL col ++ " REGEXP ?") ++ ")",
    cols.map fun _ => pattern)

def comparisonSQL : Op → String
  | .gt => ">"
  | .gte => ">="
  | .lt => "<"
  | .lte => "<="
  | _ => ""

def compilePred (p : PredExpr) (kind : SourceKind) : Except String Fragment :=
  if p.field = "" then
    let cols := freeTextColumns kind
    match p.op with
    | .regexp => .ok (freeTextRegexp cols p.value)
    | .contains | .like | .eq => .ok (freeTextContains cols p.value p.op)
    | _ => .error "unsupported free-text operator"
  else
    match fieldColumn kind p.field with
    | none => .ok ("", [])
    | some col =>
        match p.op with
        | .regexp => .ok (regexpSQL col ++ " REGEXP ?", [p.value])
        | .like =>
            let (w, a) := likeSQL col p.value
            .ok (w, [a])
        | .eq =>
            if ¬ hasStar p.value ∧ col ≠ .statusCode then
              if col = .rawPreview then .ok (col.text ++ " LIKE ?", ["%" ++ p.value ++ "%"])
              else .ok (col.text ++ " = ?", [p.value])
            else if ¬ hasStar p.value ∧ col = .statusCode then .ok (col.text ++ " = ?", [p.value])
            else
              let (w, a) := likeSQL col p.value
              .ok (w, [a])
        | .ne => .ok (col.text ++ " != ?", [p.value])
        | .gt | .gte | .lt | .lte =>
            if col ≠ .statusCode then .ok ("", [])
            else .ok ("CAST(" ++ col.text ++ " AS INTEGER) " ++ comparisonSQL p.op ++ " ?",
              [p.value])
        | .contains => .ok (freeTextContains [col] p.value .contains)

mutual
@[grind] def compileNode (kind : SourceKind) : FilterExpr → Except String Fragment
  | .and cs =>
      match compileChildren kind cs with
      | .error e => .error e
      | .ok ([], _) => .ok ("", [])
      | .ok (parts, args) => .ok ("(" ++ join " AND " parts ++ ")", args)
  | .or cs =>
      match compileChildren kind cs with
      | .error e => .error e
      | .ok ([], _) => .ok ("", [])
      | .ok (parts, args) => .ok ("(" ++ join " OR " parts ++ ")", args)
  | .not c =>
      match compileNode kind c with
      | .error e => .error e
      | .ok (w, a) => if w = "" then .ok ("", []) else .ok ("(NOT (" ++ w ++ "))", a)
  | .leaf p => compilePred p kind

/-- The loop over the children, shared by the conjunction and the disjunction. -/
@[grind] def compileChildren (kind : SourceKind) :
    List FilterExpr → Except String (List String × List String)
  | [] => .ok ([], [])
  | c :: cs =>
      match compileNode kind c with
      | .error e => .error e
      | .ok (w, a) =>
          match compileChildren kind cs with
          | .error e => .error e
          | .ok (parts, args) =>
              if w = "" then .ok (parts, args) else .ok (w :: parts, a ++ args)
end

/-- A compiled WHERE clause. -/
structure SQLFilter where
  wheres : List String
  args : List String
  applicable : Bool
  deriving Repr, DecidableEq

def compileFilter (expr : Option FilterExpr) (kind : SourceKind) : Except String SQLFilter :=
  match expr with
  | none => .ok ⟨[], [], true⟩
  | some e =>
      if ¬ exprApplicable kind e then .ok ⟨[], [], false⟩
      else
        match compileNode kind e with
        | .error err => .error err
        | .ok (w, args) =>
            if w = "" then .ok ⟨[], [], true⟩ else .ok ⟨[w], args, true⟩

/-- `flattenAnd` of a filter that is there. -/
def flattenAnd : FilterExpr → List FilterExpr
  | .and cs => cs
  | e => [e]

/-- `And`: merges two filters, flattening conjunctions. -/
def andFilters : Option FilterExpr → Option FilterExpr → Option FilterExpr
  | none, b => b
  | a, none => a
  | some a, some b =>
      match flattenAnd a ++ flattenAnd b with
      | [kid] => some kid
      | kids => some (.and kids)

def withSiteScope (expr : Option FilterExpr) (site : String) : Option FilterExpr :=
  let site := trimSpace site
  if site = "" then expr else andFilters expr (some (.leaf ⟨"site", .eq, site⟩))

end GoSite.Observability
