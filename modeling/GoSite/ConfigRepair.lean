import GoSite.CertificateLines
import GoSite.PathElements

/-!
# The repair of a configuration

When `nginx -t` fails, the line its message names is looked up and the file is edited:
a line is commented out, or the certificate lines near it are set to the default
certificate. Where a block begins and ends is found by counting braces line by line.
-/
namespace GoSite.Website
open GoStrings Paths
open GoSite.Terminal (cleanPath)

abbrev Line := List Char

/-- The loop of `braceDelta`, which knows quotes but neither comments nor escapes. -/
@[grind] def braceLoop (inSingle inDouble : Bool) : List Char → ℤ
  | [] => 0
  | c :: cs =>
      if c = '\'' then braceLoop (if inDouble then inSingle else !inSingle) inDouble cs
      else if c = '"' then braceLoop inSingle (if inSingle then inDouble else !inDouble) cs
      else if c = '{' then
        (if !inSingle && !inDouble then 1 else 0) + braceLoop inSingle inDouble cs
      else if c = '}' then
        (if !inSingle && !inDouble then -1 else 0) + braceLoop inSingle inDouble cs
      else braceLoop inSingle inDouble cs

/-- `braceDelta`. -/
def braceDelta (line : Line) : ℤ := braceLoop false false line

/-- The blanks and tabs a line begins with. -/
def indentOf (line : Line) : Line := line.takeWhile fun c => c = ' ' ∨ c = '\t'

/-- `replaceIndent`. -/
def replaceIndent (line content : Line) : Line := indentOf line ++ content

/-- The line is a comment. -/
def IsComment (line : Line) : Prop := (trimSpaceChars line).head? = some '#'

instance (line : Line) : Decidable (IsComment line) := by
  unfold IsComment
  infer_instance

/-- What `serverBlockBounds` takes for the first line of a block. -/
def opensServer (line : Line) : Bool := "server".toList <:+: line ∧ '{' ∈ line

/-- The search for the first line of a block, upwards from a line. -/
@[grind] def serverLine (lines : List Line) : ℕ → Option ℕ
  | 0 => if opensServer (lines.getD 0 []) then some 0 else none
  | i + 1 => if opensServer (lines.getD (i + 1) []) then some (i + 1) else serverLine lines i

/-- The search for the last line of a block, over the lines from the `i`-th one on. -/
@[grind] def closingLine (idx : ℕ) : ℕ → ℤ → List Line → Option ℕ
  | _, _, [] => none
  | i, depth, line :: lines =>
      if idx ≤ i ∧ depth + braceDelta line ≤ 0 then some i
      else closingLine idx (i + 1) (depth + braceDelta line) lines

/-- `serverBlockBounds`, with `none` for a negative start. -/
def serverBlockBounds (lines : List Line) (idx : ℕ) : Option (ℕ × ℕ) :=
  (serverLine lines idx).map fun start =>
    (start, (closingLine idx start 0 (lines.drop start)).getD (lines.length - 1))

/-- `ssl_certificate …;` with the path. -/
def certText (cert : List Char) : Line := certDirective ++ cert ++ [';']

/-- `ssl_certificate_key …;` with the path. -/
def keyText (key : List Char) : Line := keyDirective ++ key ++ [';']

/-- The key line that `setSSLKeyNear` finds. -/
def keyNear (lines : List Line) (certIdx : ℕ) : Option ℕ :=
  let searchEnd :=
    match serverBlockBounds lines certIdx with
    | some (_, last) => min last (certIdx + 4)
    | none => certIdx + 4
  (List.range' certIdx (searchEnd + 1 - certIdx)).find? fun i =>
    i < lines.length ∧ IsKeyLine (lines.getD i [])

/-- Lines with others put in behind the `i`-th one. -/
def insertAfter (lines : List Line) (i : ℕ) (new : List Line) : List Line :=
  lines.take (i + 1) ++ new ++ lines.drop (i + 1)

/-- `setSSLKeyNear`. -/
def setSSLKeyNear (lines : List Line) (certIdx : ℕ) (key : List Char) : List Line :=
  match keyNear lines certIdx with
  | some i => lines.set i (replaceIndent (lines.getD i []) (keyText key))
  | none => insertAfter lines certIdx [replaceIndent (lines.getD certIdx []) (keyText key)]

/-- The state of the loop of `replaceSSLPath`. The loop goes over the slice it began
with, whose elements are those of `lines` until a line was put in. -/
structure PathLoop where
  ranged : List Line
  lines : List Line
  shared : Bool
  changed : Bool
  deriving Repr, DecidableEq

/-- The line has the certificate path that `replaceSSLPath` looks for. -/
def NamesMissing (missing : List Char) (line : Line) : Prop :=
  ¬ IsComment line ∧ missing <:+: trimSpaceChars line ∧ IsCertLine line

instance (missing : List Char) (line : Line) : Decidable (NamesMissing missing line) := by
  unfold NamesMissing
  infer_instance

/-- One turn of the loop of `replaceSSLPath`. -/
def replacePathStep (missing cert key : List Char) (s : PathLoop) (i : ℕ) : PathLoop :=
  let line := s.ranged.getD i []
  if NamesMissing missing line then
    let lines := s.lines.set i (replaceIndent line (certText cert))
    let inPlace := (keyNear lines i).isSome
    let updated := setSSLKeyNear lines i key
    { ranged := if s.shared then (if inPlace then updated else lines) else s.ranged
      lines := updated
      shared := s.shared && inPlace
      changed := true }
  else s

/-- `replaceSSLPath`. -/
def replaceSSLPath (lines : List Line) (missing cert key : List Char) : List Line × Bool :=
  let s := (List.range lines.length).foldl (replacePathStep missing cert key)
    ⟨lines, lines, true, false⟩
  (s.lines, s.changed)

/-- One line of the loop of `replaceSSLInRange`. -/
def replaceSSLLine (cert key : List Char) (line : Line) : Line :=
  if IsCertLine line then replaceIndent line (certText cert)
  else if IsKeyLine line then replaceIndent line (keyText key)
  else line

/-- The lines of a block. -/
def blockLines (lines : List Line) (first last : ℕ) : List Line :=
  (lines.drop first).take (last + 1 - first)

/-- `replaceSSLInRange`. -/
def replaceSSLInRange (lines : List Line) (first last : ℕ) (cert key : List Char) : List Line :=
  let block := blockLines lines first last
  let replaced := lines.take first ++ block.map (replaceSSLLine cert key) ++ lines.drop (last + 1)
  if ∀ line ∈ block, ¬ IsCertLine line then
    let indent := indentOf (replaced.getD first [])
    insertAfter replaced first [indent ++ certText cert, indent ++ keyText key]
  else setSSLKeyNear replaced first key

/-- The beginning of a message about a certificate. -/
def cannotLoad : List Char := "cannot load certificate \"".toList

/-- The path the message names: the first match of `cannot load certificate "([^"]+)"`. -/
@[grind] def missingPath : List Char → List Char
  | [] => []
  | c :: cs =>
      let rest := (c :: cs).drop cannotLoad.length
      let path := rest.takeWhile (· ≠ '"')
      if cannotLoad <+: c :: cs ∧ path ≠ [] ∧ path.length < rest.length then path
      else missingPath cs

structure RepairConfig where
  defaultCert : List Char
  defaultKey : List Char
  allowPrefixes : List (List Char)

/-- `repairMissingCertificate`, with `none` where it reports no change. -/
def repairMissingCertificate (filesExist : Bool) (lines : List Line) (lineNum : ℕ)
    (cfg : RepairConfig) (message : List Char) : Option (List Line) :=
  if lineNum < 1 ∨ lines.length < lineNum then none
  else if ¬ filesExist then none
  else
    let idx := lineNum - 1
    let missing := missingPath message
    if IsCertLine (lines.getD idx []) then
      some (setSSLKeyNear (lines.set idx ('\t' :: certText cfg.defaultCert)) idx cfg.defaultKey)
    else
      let replaced := replaceSSLPath lines missing cfg.defaultCert cfg.defaultKey
      if missing ≠ [] ∧ replaced.2 then some replaced.1
      else
        -- The slice was not written to when nothing was replaced.
        (serverBlockBounds lines idx).map fun bounds =>
          replaceSSLInRange lines bounds.1 bounds.2 cfg.defaultCert cfg.defaultKey

/-- `repairUndefinedSSL`. -/
def repairUndefinedSSL (filesExist : Bool) (lines : List Line) (lineNum : ℕ)
    (cfg : RepairConfig) : Option (List Line) :=
  if lineNum < 1 ∨ lines.length < lineNum ∨ ¬ filesExist then none
  else
    let idx := lineNum - 1
    match serverBlockBounds lines idx with
    | none => none
    | some (first, last) =>
        if ∃ line ∈ blockLines lines first last, IsCertLine line then none
        else
          some (insertAfter lines idx
            ['\t' :: certText cfg.defaultCert, '\t' :: keyText cfg.defaultKey])

/-- `commentOutLine`. -/
def commentOutLine (lines : List Line) (lineNum : ℕ) : Option (List Line) :=
  if lineNum < 1 ∨ lines.length < lineNum then none
  else
    let idx := lineNum - 1
    let line := lines.getD idx []
    if trimSpaceChars line = [] ∨ IsComment line then none
    else some (lines.set idx (indentOf line ++ "# gosite-repair: ".toList ++ trimSpaceChars line))

/-! ## Applying a repair -/

/-- `parsedNginxError`. -/
structure ParsedNginxError where
  message : List Char
  file : List Char
  line : ℕ

structure RepairAction where
  file : List Char
  line : ℕ
  reason : String
  fix : String
  deriving Repr, DecidableEq

/-- The kinds of repair, in the order of the switch of `applyRepair`. -/
inductive RepairKind where
  | missingCertificate
  | undefinedSSL
  | invalidDirective
  | duplicateListen
  deriving Repr, DecidableEq

/-- What a repair meets outside the panel. `toLower` is `unicode.ToLower`. -/
structure RepairWeather where
  toLower : Char → Char
  evalSymlinks : List Char → Option (List Char)
  cwd : Directory
  readFile : List Char → Except String (List Char)
  stat : List Char → Bool
  writeErr : Option String

/-- The switch of `applyRepair` over the lowered message. -/
def repairKind (msg : List Char) : Option RepairKind :=
  let contains (text : String) : Bool := text.toList <:+: msg
  if contains "cannot load certificate" || contains "bio_new_file() failed" ||
      contains "no such file or directory" && contains "certificate" then
    some .missingCertificate
  else if contains "no \"ssl_certificate\" is defined" then some .undefinedSSL
  else if contains "unknown directive" || contains "unknown \"" ||
      contains "invalid number of arguments" || contains "directive is not allowed here" ||
      contains "unexpected" then
    some .invalidDirective
  else if contains "duplicate listen" then some .duplicateListen
  else none

/-- `resolveRepairTarget`. -/
def RepairWeather.target (e : RepairWeather) (path : List Char) : List Char :=
  (e.evalSymlinks path).getD path

/-- `isRepairAllowed`. -/
def RepairWeather.isRepairAllowed (e : RepairWeather) (path : List Char)
    (prefixes : List (List Char)) : Bool :=
  prefixes.any fun p => Within (absPath e.cwd p) (absPath e.cwd path)

/-- `certFilesExist`. -/
def RepairWeather.certFilesExist (e : RepairWeather) (cfg : RepairConfig) : Bool :=
  e.stat cfg.defaultCert && e.stat cfg.defaultKey

/-- `strings.ReplaceAll(text, "\r\n", "\n")` and the split into lines. -/
def readLines (text : List Char) : List Line :=
  (replaceText ['\r', '\n'] ['\n'] 0 text).splitOn '\n'

/-- The lines after a repair, where it applies. -/
def RepairKind.repair (filesExist : Bool) (lines : List Line) (parsed : ParsedNginxError)
    (cfg : RepairConfig) : RepairKind → Option (List Line)
  | .missingCertificate =>
      repairMissingCertificate filesExist lines parsed.line cfg parsed.message
  | .undefinedSSL => repairUndefinedSSL filesExist lines parsed.line cfg
  | .invalidDirective | .duplicateListen => commentOutLine lines parsed.line

def RepairKind.action (target : List Char) (line : ℕ) : RepairKind → RepairAction
  | .missingCertificate =>
      ⟨target, line, "missing ssl certificate file", "use default self-signed certificate"⟩
  | .undefinedSSL =>
      ⟨target, line, "ssl listen without certificate",
        "insert default self-signed certificate directives"⟩
  | .invalidDirective => ⟨target, line, "unsupported or invalid directive", "comment out line"⟩
  | .duplicateListen =>
      ⟨target, line, "duplicate listen options", "comment out duplicate listen line"⟩

/-- What `applyRepair` returns, and the text it gave to `os.WriteFile`. -/
structure RepairResult where
  answer : Except String (Option RepairAction)
  written : Option (List Char)

/-- `applyRepair`. -/
def applyRepair (e : RepairWeather) (parsed : ParsedNginxError) (cfg : RepairConfig) :
    RepairResult :=
  let target := e.target parsed.file
  if ¬ e.isRepairAllowed target cfg.allowPrefixes then ⟨.ok none, none⟩
  else
    match e.readFile target with
    | .error err => ⟨.error ("read config " ++ String.ofList target ++ ": " ++ err), none⟩
    | .ok content =>
        match repairKind (parsed.message.map e.toLower) with
        | none => ⟨.ok none, none⟩
        | some kind =>
            match kind.repair (e.certFilesExist cfg) (readLines content) parsed cfg with
            | none => ⟨.ok none, none⟩
            | some updated =>
                let text := ['\n'].intercalate updated
                match e.writeErr with
                | some err =>
                    ⟨.error ("write config " ++ String.ofList target ++ ": " ++ err), some text⟩
                | none => ⟨.ok (some (kind.action target parsed.line)), some text⟩

end GoSite.Website
