import GoSite.GoBytes
import GoSite.ParsedFilters

/-!
# The parser of search strings

A search string is split at its pipes, and what stands before the first one is
read token by token. The lexer goes byte by byte. A quote or an expression that
it cannot read becomes an end of input with the rest of the string behind it,
also when it was only looked at.
-/
namespace GoSite.Observability
open BooleanTrees GoStrings

/-- The tables of the Go library and `regexp.Compile`. -/
structure SearchLib where
  toLower : Char → Char
  isLetter : Char → Bool
  isDigit : Char → Bool
  compiles : String → Bool
  toLower_ascii : ∀ c : Char, c.toNat < 128 → toLower c = c.toLower
  isLetter_ascii : ∀ c : Char, c.toNat < 128 → isLetter c = c.isAlpha
  isDigit_ascii : ∀ c : Char, c.toNat < 128 → isDigit c = c.isDigit

inductive SearchError where
  /-- `errSearch` with its message. -/
  | search (msg : String)
  /-- The parser was given too few steps. -/
  | outOfFuel
  deriving Repr, DecidableEq

/-! ## Pipes -/

inductive SplitMode where
  | plain
  | quote
  | regex
  deriving Repr, DecidableEq

/-- The loop of `splitPipes`. `buf` is the part being read. -/
@[grind] def splitPipesLoop : SplitMode → Bool → List UInt8 → List UInt8 →
    Except SearchError (List (List UInt8))
  | .quote, _, _, [] => .error (.search "unterminated quote")
  | .regex, _, _, [] => .error (.search "unterminated regex")
  | .plain, _, buf, [] => .ok [trimSpaceBytes buf]
  | mode, true, buf, ch :: rest => splitPipesLoop mode false (buf ++ [ch]) rest
  | .regex, false, buf, ch :: rest =>
      if ch = '\\'.toUInt8 then splitPipesLoop .regex true (buf ++ [ch]) rest
      else if ch = '/'.toUInt8 then splitPipesLoop .plain false (buf ++ [ch]) rest
      else splitPipesLoop .regex false (buf ++ [ch]) rest
  | .quote, false, buf, ch :: rest =>
      if ch = '\\'.toUInt8 then splitPipesLoop .quote true (buf ++ [ch]) rest
      else if ch = '"'.toUInt8 then splitPipesLoop .plain false (buf ++ [ch]) rest
      else splitPipesLoop .quote false (buf ++ [ch]) rest
  | .plain, false, buf, ch :: rest =>
      if ch = '"'.toUInt8 then splitPipesLoop .quote false (buf ++ [ch]) rest
      else if ch = '/'.toUInt8 then splitPipesLoop .regex false (buf ++ [ch]) rest
      else if ch = '|'.toUInt8 then
        (splitPipesLoop .plain false [] rest).map (trimSpaceBytes buf :: ·)
      else splitPipesLoop .plain false (buf ++ [ch]) rest

/-- The search part and the pipe commands that are not empty. -/
def splitPipes (q : List UInt8) : Except SearchError (List UInt8 × List (List UInt8)) :=
  match splitPipesLoop .plain false [] q with
  | .error err => .error err
  | .ok [] => .ok ([], [])
  | .ok (search :: pipes) => .ok (search, pipes.filter (· ≠ []))

/-- A command after the search. `limit` is that of `head`, `field` and `desc`
are those of `sort`. -/
structure PipeCmd where
  name : String
  args : List String
  limit : ℤ
  field : String
  desc : Bool
  deriving Repr, DecidableEq

section
variable (lib : SearchLib)

def parsePipe (part : List UInt8) : Except SearchError PipeCmd :=
  match fields (decode part).toList with
  | [] => .error (.search "empty pipe command")
  | first :: args =>
      let name := String.ofList (first.map lib.toLower)
      let argTexts := args.map String.ofList
      if name = "head" then
        match args with
        | [] => .error (.search "head requires a limit")
        | arg :: _ =>
            let (n, err) := atoi arg
            if err ≠ none ∨ n ≤ 0 then .error (.search "head limit must be a positive integer")
            else .ok ⟨"head", argTexts, n, "", false⟩
      else if name = "sort" then
        match args with
        | [] => .error (.search "sort requires a field")
        | arg :: _ =>
            let desc : Bool := ['-'] <+: arg
            let field := trimPrefix arg ['-']
            if field = [] then .error (.search "sort field required")
            else .ok ⟨"sort", argTexts, 0, String.ofList field, desc⟩
      else .error (.search ("unknown pipe command " ++ name))

/-! ## Tokens -/

inductive TokenKind where
  | eof
  | word
  | quoted
  | regex
  | lparen
  | rparen
  | andOp
  | orOp
  | notOp
  deriving Repr, DecidableEq

structure Token where
  kind : TokenKind
  text : String
  deriving Repr, DecidableEq

/-- The token at the end of the input, and `token{}`. -/
def Token.zero : Token := ⟨.eof, ""⟩

/-- `unicode.IsSpace(rune(b))`. -/
def isSpaceByte (b : UInt8) : Bool := isSpace (Char.ofNat b.toNat)

def skipSpace (input : List UInt8) : List UInt8 := input.dropWhile isSpaceByte

/-- What ends a word. -/
def endsWord (c : UInt8) : Bool :=
  c = '('.toUInt8 || c = ')'.toUInt8 || c = '"'.toUInt8 || c = '/'.toUInt8 || isSpaceByte c

/-- The text up to a delimiter that is not escaped, and what comes after it. -/
@[grind] def scanTo (delim : UInt8) : Bool → List UInt8 → Option (List UInt8 × List UInt8)
  | _, [] => none
  | true, c :: cs => (scanTo delim false cs).map fun (text, rest) => (c :: text, rest)
  | false, c :: cs =>
      if c = '\\'.toUInt8 then (scanTo delim true cs).map fun (text, rest) => (c :: text, rest)
      else if c = delim then some ([], cs)
      else (scanTo delim false cs).map fun (text, rest) => (c :: text, rest)

def unescapeQuoted (s : String) : String :=
  String.ofList (replacePair '\\' '\\' ['\\'] (replacePair '\\' '"' ['"'] s.toList))

/-- `validateRegexp` finds no error. -/
def validRegexp (pattern : String) : Bool := pattern = "" || lib.compiles pattern

/-- The keywords in any case. No other letters have theirs as upper case. -/
def wordKind (word : String) : TokenKind :=
  let upper := String.ofList (word.toList.map Char.toUpper)
  if upper = "AND" then .andOp else if upper = "OR" then .orOp
  else if upper = "NOT" then .notOp else .word

/-- `readQuoted` behind the quote. Without an end it reads everything. -/
def readQuoted (input : List UInt8) : Token × List UInt8 :=
  match scanTo '"'.toUInt8 false input with
  | none => (Token.zero, [])
  | some (text, after) => (⟨.quoted, unescapeQuoted (decode text)⟩, after)

/-- `readRegex` behind the slash. -/
def readRegex (input : List UInt8) : Token × List UInt8 :=
  match scanTo '/'.toUInt8 false input with
  | none => (Token.zero, [])
  | some (pattern, after) =>
      if validRegexp lib (decode pattern) then (⟨.regex, decode pattern⟩, after)
      else (Token.zero, after)

def readWord (input : List UInt8) : Token × List UInt8 :=
  let word := decode (input.takeWhile (!endsWord ·))
  (⟨wordKind word, word⟩, input.dropWhile (!endsWord ·))

/-- The token that begins with a byte, and what comes after it. -/
def readToken (ch : UInt8) (rest : List UInt8) : Token × List UInt8 :=
  if ch = '('.toUInt8 then (⟨.lparen, "("⟩, rest)
  else if ch = ')'.toUInt8 then (⟨.rparen, ")"⟩, rest)
  else if ch = '"'.toUInt8 then readQuoted rest
  else if ch = '/'.toUInt8 then readRegex lib rest
  else readWord (ch :: rest)

/-- `read`. Without `advance` the position goes back to the token that was read,
but not to one that could not be read. -/
def read (advance : Bool) (input : List UInt8) : Token × List UInt8 :=
  match skipSpace input with
  | [] => (Token.zero, [])
  | ch :: rest =>
      let (tok, after) := readToken lib ch rest
      if advance ∨ tok.kind = .eof then (tok, after) else (tok, ch :: rest)

def peek (input : List UInt8) : Token × List UInt8 := read lib false input

def next (input : List UInt8) : Token × List UInt8 := read lib true input

/-! ## Predicates -/

/-- The operators in the order in which they are looked for. -/
def fieldOps : List (String × Op) :=
  [(">=", .gte), ("<=", .lte), ("!=", .ne), (">", .gt), ("<", .lt), ("=", .eq), (":", .eq)]

def isValidFieldName (s : List Char) : Bool :=
  s ≠ [] && s.all (fun c => lib.isLetter c || lib.isDigit c || c = '_') &&
    s.head?.all (fun c => lib.isLetter c || c = '_')

/-- `strings.ToLower(strings.TrimSpace(s))`. -/
def fieldName (s : List Char) : List Char := (trimSpaceChars s).map lib.toLower

/-- Equality with a star is a wildcard. -/
def likeIfStar (op : Op) (value : String) : Op :=
  if op = .eq ∧ hasStar value then .like else op

/-- The loop of `parseFieldPredicate`. -/
@[grind] def parseFieldPredicateLoop (word : List Char) : List (String × Op) → Option PredExpr
  | [] => none
  | (sep, op) :: ops =>
      match index word sep.toList with
      | none => parseFieldPredicateLoop word ops
      | some 0 => parseFieldPredicateLoop word ops
      | some (i + 1) =>
          let field := fieldName lib (word.take (i + 1))
          if ¬ isValidFieldName lib field then parseFieldPredicateLoop word ops
          else
            let value := trimSpaceChars (word.drop (i + 1 + sep.length))
            if value = [] then none
            else if ['/'] <+: value ∧ ['/'] <:+ value ∧ 2 ≤ value.length then
              let pattern := String.ofList ((value.drop 1).take (value.length - 2))
              if ¬ validRegexp lib pattern then none
              else some ⟨String.ofList field, .regexp, pattern⟩
            else some ⟨String.ofList field, likeIfStar op (String.ofList value), String.ofList value⟩

def parseFieldPredicate (word : String) : Option PredExpr :=
  parseFieldPredicateLoop lib word.toList fieldOps

/-- The loop of `fieldOpSuffix`. -/
@[grind] def fieldOpSuffixLoop (word : List Char) : List (String × Op) → Option (String × Op)
  | [] => none
  | (sep, op) :: ops =>
      if ¬ sep.toList <:+ word then fieldOpSuffixLoop word ops
      else
        let field := fieldName lib (word.take (word.length - sep.length))
        if isValidFieldName lib field then some (String.ofList field, op)
        else fieldOpSuffixLoop word ops

def fieldOpSuffix (word : String) : Option (String × Op) :=
  fieldOpSuffixLoop lib word.toList fieldOps

def parseWordPredicate (word : String) (input : List UInt8) : PredExpr × List UInt8 :=
  let (_, input) := next lib input
  match parseFieldPredicate lib word with
  | some pred => (pred, input)
  | none =>
      match fieldOpSuffix lib word with
      | none => (⟨"", .contains, word⟩, input)
      | some (field, op) =>
          let (tok, input) := peek lib input
          match tok.kind with
          | .regex =>
              let (tok, input) := next lib input
              (⟨field, .regexp, tok.text⟩, input)
          | .quoted | .word =>
              let (tok, input) := next lib input
              (⟨field, likeIfStar op tok.text, tok.text⟩, input)
          | _ => (⟨"", .contains, word⟩, input)

/-! ## Expressions -/

/-- What ends a conjunction. -/
def endsAnd (kind : TokenKind) : Bool := kind = .eof || kind = .rparen || kind = .orOp

def finishAnd (parts : List FilterExpr) (input : List UInt8) :
    Except SearchError (FilterExpr × List UInt8) :=
  match parts with
  | [] => .error (.search "expected search term")
  | [part] => .ok (part, input)
  | parts => .ok (.and parts, input)

/-- One more alternative. A disjunction in parentheses is continued. -/
def addAlternative (left right : FilterExpr) : FilterExpr :=
  match left with
  | .or cs => .or (cs ++ [right])
  | left => .or [left, right]

mutual
def parseOr : ℕ → List UInt8 → Except SearchError (FilterExpr × List UInt8)
  | 0, _ => .error .outOfFuel
  | n + 1, input =>
      match parseAnd n [] input with
      | .error err => .error err
      | .ok (left, input) => parseOrLoop n left input

@[grind]
def parseOrLoop : ℕ → FilterExpr → List UInt8 → Except SearchError (FilterExpr × List UInt8)
  | 0, _, _ => .error .outOfFuel
  | n + 1, left, input =>
      let (tok, input) := peek lib input
      if tok.kind ≠ .orOp then .ok (left, input)
      else
        match parseAnd n [] (next lib input).2 with
        | .error err => .error err
        | .ok (right, input) => parseOrLoop n (addAlternative left right) input

/-- The loop of `parseAnd`, which looks at each token more than once. -/
@[grind]
def parseAnd : ℕ → List FilterExpr → List UInt8 → Except SearchError (FilterExpr × List UInt8)
  | 0, _, _ => .error .outOfFuel
  | n + 1, parts, input =>
      let (tok, input) := peek lib input
      if endsAnd tok.kind then finishAnd parts input
      else
        let input := if tok.kind = .andOp then (next lib input).2 else input
        let (tok, input) := peek lib input
        if endsAnd tok.kind then finishAnd parts input
        else
          match parseUnary n input with
          | .error err => .error err
          | .ok (part, input) => parseAnd n (parts ++ [part]) input

@[grind] def parseUnary : ℕ → List UInt8 → Except SearchError (FilterExpr × List UInt8)
  | 0, _ => .error .outOfFuel
  | n + 1, input =>
      let (tok, input) := peek lib input
      if tok.kind = .notOp then
        match parseUnary n (next lib input).2 with
        | .error err => .error err
        | .ok (child, input) => .ok (.not child, input)
      else parsePrimary n input

def parsePrimary : ℕ → List UInt8 → Except SearchError (FilterExpr × List UInt8)
  | 0, _ => .error .outOfFuel
  | n + 1, input =>
      let (tok, input) := peek lib input
      match tok.kind with
      | .lparen =>
          match parseOr n (next lib input).2 with
          | .error err => .error err
          | .ok (inner, input) =>
              let (tok, input) := next lib input
              if tok.kind ≠ .rparen then .error (.search "expected )") else .ok (inner, input)
      | .quoted => .ok (.leaf ⟨"", .contains, tok.text⟩, (next lib input).2)
      | .regex => .ok (.leaf ⟨"", .regexp, tok.text⟩, (next lib input).2)
      | .word =>
          let (pred, input) := parseWordPredicate lib tok.text input
          .ok (.leaf pred, input)
      | _ => .error (.search "expected search term")
end

/-- Steps that are enough for an input. -/
def parseFuel (input : List UInt8) : ℕ := 6 * input.length + 6

/-- `ParseSearch`. -/
def parseSearch (q : List UInt8) : Except SearchError (Option FilterExpr × List PipeCmd) :=
  let q := trimSpaceBytes q
  if q = [] ∨ q = ['*'.toUInt8] then .ok (none, [])
  else
    match splitPipes q with
    | .error err => .error err
    | .ok (search, parts) =>
        match parts.mapM (parsePipe lib) with
        | .error err => .error err
        | .ok pipes =>
            if trimSpaceBytes search = [] then .ok (none, pipes)
            else
              let input := trimSpaceBytes search
              match parseOr lib (parseFuel input) input with
              | .error err => .error err
              | .ok (expr, input) =>
                  let (tok, input) := peek lib input
                  if tok.kind ≠ .eof then
                    .error (.search ("unexpected token " ++ (peek lib input).1.text))
                  else .ok (some expr, pipes)

end

end GoSite.Observability
