import GoSite.GoBytes
import GoSite.PathElements

/-!
# Mount entries in fstab

The calls that edit the mount table. Each reads the lines of the file, finds its
entry among those that parse, and writes all lines back. An S3 entry is given a
file with its credentials first; the path of that file stands in its options.
-/
namespace GoSite.Mounts

open GoStrings Paths
open GoSite.Terminal (joinPath)

abbrev Text := List Char

structure S3Config where
  bucket : Text
  endpoint : Text
  region : Text
  accessKey : Text
  secretKey : Text
  pathStyle : Bool
  deriving Repr, DecidableEq

/-- The columns of a line. -/
structure Row where
  device : Text
  dir : Text
  type : Text
  options : Text
  dump : Text
  fsck : Text
  deriving Repr, DecidableEq

/-- An entry of a request or of a listing. -/
structure Entry extends Row where
  s3 : Option S3Config
  deriving Repr, DecidableEq

inductive ErrorCode where
  | invalidInput
  | conflict
  | notFound
  | internal
  deriving Repr, DecidableEq

inductive MountError where
  | app (code : ErrorCode) (message : String)
  /-- `bufio.ErrTooLong`. -/
  | tooLong
  deriving Repr, DecidableEq

def invalidInput (message : String) : MountError := .app .invalidInput message

/-- The service, the working directory of its process, and `url.Parse` followed
by `String` of the URL with its path trimmed and nothing behind it. -/
structure Config where
  cwd : Directory
  secretsDir : Text
  reparse : Text → Option Text
  secretsDir_ne : secretsDir ≠ []

/-- The mount table, and the other files by the elements of their absolute path. -/
structure MountState where
  fstab : Option Text
  files : List Text → Option Text

/-- What the disk does in the course of a call. -/
inductive Disk where
  | sound
  | readFails
  /-- The credentials are not written, or something else is. -/
  | secretFails (left : Option Text)
  /-- The credentials are not removed, which nobody looks at. -/
  | removeFails
  | mkdirFails
  /-- The table is cut off behind a part of what was to be written. -/
  | writeFails (written : ℕ)
  deriving Repr, DecidableEq

/-- The bytes of a text. -/
def byteLength (s : Text) : ℕ := (s.map Char.utf8Size).sum

/-- `bufio.MaxScanTokenSize`. -/
def maxScanTokenSize : ℕ := 64 * 1024

/-- The lines of a scanner, a carriage return at their end included. -/
def rawLines (s : Text) : List Text :=
  let parts := s.splitOn '\n'
  if parts.getLast? = some [] then parts.dropLast else parts

/-- The test of `readLines`, on a trimmed line. -/
def isContent (line : Text) : Bool := line ≠ [] ∧ line.head? ≠ some '#'

def readLines (disk : Disk) (s : MountState) : Except MountError (List Text) :=
  if disk = .readFails then .error (.app .internal "read fstab")
  else
    match s.fstab with
    | none => .ok []
    | some text =>
        if ∀ line ∈ rawLines text, byteLength line < maxScanTokenSize then
          .ok (((rawLines text).map trimSpaceChars).filter isContent)
        else .error .tooLong

/-- What `writeLines` writes. -/
def joinLines (lines : List Text) : Text :=
  let content := ['\n'].intercalate lines
  if content ≠ [] then content ++ ['\n'] else content

def writeLines (disk : Disk) (s : MountState) (lines : List Text) :
    MountState × Option MountError :=
  match disk with
  | .mkdirFails => (s, some (.app .internal "create fstab dir"))
  | .writeFails written =>
      ({ s with fstab := some ((joinLines lines).take written) },
        some (.app .internal "write fstab"))
  | _ => ({ s with fstab := some (joinLines lines) }, none)

def parseFstabLine (line : Text) : Option Row :=
  match fields line with
  | [device, dir, type, options, dump, fsck] => some ⟨device, dir, type, options, dump, fsck⟩
  | _ => none

def Row.columns (row : Row) : List Text :=
  [row.device, row.dir, row.type, row.options, row.dump, row.fsck]

def formatEntry (row : Row) : Text := [' '].intercalate row.columns

/-- The character class of `strings.ContainsAny` for mount fields. -/
def hasWhitespace (field : Text) : Bool :=
  field.any fun c => c = ' ' ∨ c = '\t' ∨ c = '\r' ∨ c = '\n'

/-- `unicode.ToLower` of the characters it takes to ASCII ones. The others are
in none of the sets a lowered character is looked up in. -/
def lower (c : Char) : Char :=
  if c = '\u212a' then 'k' else if c = '\u0130' then 'i' else c.toLower

def isS3Type (type : Text) : Bool :=
  (trimSpaceChars type).map lower ∈ ["fuse.s3fs".toList, "s3".toList, "s3fs".toList]

def normalizeS3Type (type : Text) : Text :=
  if isS3Type type then "fuse.s3fs".toList else type

def orDefault (field : Text) (default : String) : Text :=
  if field = [] then default.toList else field

/-- `strconv.Atoi` fails. -/
def notNumeric (field : Text) : Bool := (atoi field).2.isSome

/-- `normalizeEntry`. It does not look at the S3 settings. -/
def normalizeEntry (row : Row) : Except MountError Row :=
  let device := trimSpaceChars row.device
  let dir := trimSpaceChars row.dir
  let type := normalizeS3Type (trimSpaceChars row.type)
  let options := orDefault (trimSpaceChars row.options) "defaults"
  let dump := orDefault (trimSpaceChars row.dump) "0"
  let fsck := orDefault (trimSpaceChars row.fsck) "0"
  if device = [] ∨ dir = [] then .error (invalidInput "device and dir required")
  else if type = [] then .error (invalidInput "type required")
  else if [device, dir, type, options, dump, fsck].any hasWhitespace then
    .error (invalidInput "mount fields must not contain whitespace")
  else if dir.head? ≠ some '/' then .error (invalidInput "mount dir must be absolute")
  else if notNumeric dump then .error (invalidInput "dump must be numeric")
  else if notNumeric fsck then .error (invalidInput "fsck must be numeric")
  else .ok ⟨device, dir, type, options, dump, fsck⟩

def validateLookupFields (device dir : Text) : Option MountError :=
  if trimSpaceChars dir = [] then some (invalidInput "dir required")
  else if hasWhitespace device ∨ hasWhitespace dir then
    some (invalidInput "mount fields must not contain whitespace")
  else if dir.head? ≠ some '/' then some (invalidInput "mount dir must be absolute")
  else none

/-- `strings.Trim` of a character. -/
def trimChar (c : Char) (s : Text) : Text := (s.dropWhile (· = c)).rdropWhile (· = c)

def mountSecretName (dir : Text) : Text :=
  let name := (trimChar '/' (trimSpaceChars dir)).map fun c => if c = '/' then '-' else c
  let name := if name = [] then "root".toList else name
  "s3-".toList ++ name ++ ".passwd".toList

def passwdPath (secretsDir dir : Text) : Text := joinPath secretsDir (mountSecretName dir)

/-- The file a path leads to. -/
def Config.file (cfg : Config) (path : Text) : List Text := absElements cfg.cwd path

def setFile (s : MountState) (file : List Text) (content : Option Text) : MountState :=
  { s with files := fun f => if f = file then content else s.files f }

def writePasswdFile (cfg : Config) (disk : Disk) (s : MountState) (path accessKey secretKey : Text) :
    MountState × Option MountError :=
  let access := trimSpaceChars accessKey
  let secret := trimSpaceChars secretKey
  if access = [] ∨ secret = [] then
    (s, some (invalidInput "S3 access key and secret key required"))
  else
    match disk with
    | .secretFails none => (s, some (.app .internal "create mount secrets dir"))
    | .secretFails (some left) =>
        (setFile s (cfg.file path) (some left), some (.app .internal "write S3 credentials"))
    | _ => (setFile s (cfg.file path) (some (access ++ ':' :: (secret ++ ['\n']))), none)

/-- `[a-z0-9]`, and with dot and dash. -/
def isBucketEnd (c : Char) : Bool := ('a' ≤ c ∧ c ≤ 'z') ∨ c.isDigit
def isBucketChar (c : Char) : Bool := isBucketEnd c ∨ c = '.' ∨ c = '-'

def validateS3Bucket (bucket : Text) : Option MountError :=
  let bucket := trimSpaceChars bucket
  let lowered := bucket.map lower
  if bucket = [] then some (invalidInput "S3 bucket required")
  else if byteLength bucket < 3 ∨ byteLength bucket > 63 then
    some (invalidInput "S3 bucket name must be 3-63 characters")
  else if 3 ≤ lowered.length ∧ lowered.length ≤ 63 ∧ lowered.head?.any isBucketEnd ∧
      lowered.all isBucketChar ∧ lowered.getLast?.any isBucketEnd then none
  else some (invalidInput "invalid S3 bucket name")

def normalizeS3Endpoint (cfg : Config) (endpoint : Text) : Except MountError Text :=
  let endpoint := trimSpaceChars endpoint
  if endpoint = [] then .ok []
  else
    let endpoint :=
      if "://".toList <:+: endpoint then endpoint else "https://".toList ++ endpoint
    match cfg.reparse endpoint with
    | none => .error (invalidInput "invalid S3 endpoint URL")
    | some url => .ok url

def passwdOption : Text := "passwd_file=".toList

def buildS3Options (cfg : Config) (s3 : S3Config) (passwdFile : Text) : Except MountError Text :=
  match normalizeS3Endpoint cfg s3.endpoint with
  | .error err => .error err
  | .ok endpoint =>
      let region := trimSpaceChars s3.region
      .ok ([','].intercalate (["_netdev".toList, "allow_other".toList, passwdOption ++ passwdFile] ++
        (if endpoint ≠ [] then ["url=".toList ++ endpoint] else []) ++
        (if region ≠ [] then ["endpoint=".toList ++ region] else []) ++
        (if s3.pathStyle then ["use_path_request_style".toList] else [])))

/-- The first option that names a credential file. An empty path is none. -/
def parsePasswdFileOption (options : Text) : Text :=
  match ((options.splitOn ',').map trimSpaceChars).find? (passwdOption <+: ·) with
  | some part => part.drop passwdOption.length
  | none => []

/-- One option of a listed S3 entry. -/
def parseS3Option (s3 : S3Config) (part : Text) : S3Config :=
  if "url=".toList <+: part then { s3 with endpoint := part.drop "url=".toList.length }
  else if "endpoint=".toList <+: part then
    { s3 with region := part.drop "endpoint=".toList.length }
  else if part = "use_path_request_style".toList then { s3 with pathStyle := true }
  else s3

def parseS3Options (options : Text) : S3Config :=
  ((options.splitOn ',').map trimSpaceChars).foldl parseS3Option ⟨[], [], [], [], [], false⟩

def enrichS3ForList (row : Row) : Entry :=
  if isS3Type row.type then
    ⟨row, some { parseS3Options row.options with bucket := row.device }⟩
  else ⟨row, none⟩

def hasKeys (s3 : S3Config) : Bool :=
  trimSpaceChars s3.accessKey ≠ [] ∧ trimSpaceChars s3.secretKey ≠ []

/-- The credentials of the request are written, or there have to be some. -/
def provideKeys (cfg : Config) (disk : Disk) (s : MountState) (s3 : S3Config) (passwd : Text)
    (needed : Bool) : MountState × Option MountError :=
  if hasKeys s3 then writePasswdFile cfg disk s passwd s3.accessKey s3.secretKey
  else if needed ∧ s.files (cfg.file passwd) = none then
    (s, some (invalidInput "S3 credentials missing; provide access key and secret key"))
  else (s, none)

/-- The entry of an S3 mount. -/
def s3Row (cfg : Config) (dir : Text) (s3 : S3Config) (passwd : Text) : Except MountError Row :=
  match buildS3Options cfg s3 passwd with
  | .error err => .error err
  | .ok options =>
      .ok ⟨trimSpaceChars s3.bucket, dir, "fuse.s3fs".toList, options, "0".toList, "0".toList⟩

/-- The credential file `applyS3Entry` chooses. -/
def chosenPasswd (cfg : Config) (dir keepPasswdPath : Text) : Text :=
  if keepPasswdPath = [] then passwdPath cfg.secretsDir dir else keepPasswdPath

/-- `applyS3Entry`: the credentials are written before the options are built. -/
def applyS3Entry (cfg : Config) (disk : Disk) (s : MountState) (entry : Entry)
    (keepPasswdPath : Text) (requireKeys : Bool) : MountState × Except MountError Row :=
  match entry.s3 with
  | none => (s, .error (invalidInput "S3 settings required"))
  | some s3 =>
      match validateS3Bucket s3.bucket with
      | some err => (s, .error err)
      | none =>
          let passwd := chosenPasswd cfg entry.dir keepPasswdPath
          if requireKeys ∧ ¬ hasKeys s3 then
            (s, .error (invalidInput "S3 access key and secret key required"))
          else
            let r := provideKeys cfg disk s s3 passwd (requireKeys ∨ keepPasswdPath = [])
            match r.2 with
            | some err => (r.1, .error err)
            | none => (r.1, s3Row cfg entry.dir s3 passwd)

/-- What `Add` and `Update` do before they look for the entry. -/
def prepare (cfg : Config) (disk : Disk) (s : MountState) (entry : Entry) (keepPasswdPath : Text)
    (requireKeys : Bool) : MountState × Except MountError Row :=
  if isS3Type entry.type then
    let r := applyS3Entry cfg disk s entry keepPasswdPath requireKeys
    (r.1, r.2.bind normalizeEntry)
  else (s, normalizeEntry entry.toRow)

/-- The comparison by which entries are found. -/
def Row.isAt (device dir : Text) (row : Row) : Bool := row.device = device ∧ row.dir = dir

/-- A line that parses to an entry at this place. -/
def lineIsAt (device dir : Text) (line : Text) : Bool :=
  (parseFstabLine line).any (Row.isAt device dir)

@[grind] def replaceFirst (device dir new : Text) : List Text → Option (List Text)
  | [] => none
  | line :: lines =>
      if lineIsAt device dir line then some (new :: lines)
      else (replaceFirst device dir new lines).map (line :: ·)

def removePasswdFromOptions (cfg : Config) (disk : Disk) (s : MountState) (options : Text) :
    MountState :=
  let path := parsePasswdFileOption options
  if path ≠ [] ∧ disk ≠ .removeFails then setFile s (cfg.file path) none else s

/-- The removal of the credentials of an entry that is deleted. -/
def dropSecret (cfg : Config) (disk : Disk) (s : MountState) (row : Row) : MountState :=
  if isS3Type row.type then removePasswdFromOptions cfg disk s row.options else s

def add (cfg : Config) (disk : Disk) (s : MountState) (entry : Entry) :
    MountState × Option MountError :=
  let r := prepare cfg disk s entry [] true
  match r.2 with
  | .error err => (r.1, some err)
  | .ok row =>
      match readLines disk r.1 with
      | .error err => (r.1, some err)
      | .ok lines =>
          if lines.any (lineIsAt row.device row.dir) then
            (r.1, some (.app .conflict "mount entry already exists"))
          else writeLines disk r.1 (lines ++ [formatEntry row])

/-- The credential file named by the entry that `Update` is to replace. -/
def keptPasswd (lines : List Text) (oldDevice oldDir : Text) : Text :=
  match (lines.filterMap parseFstabLine).find? (Row.isAt oldDevice oldDir) with
  | some row => parsePasswdFileOption row.options
  | none => []

def update (cfg : Config) (disk : Disk) (s : MountState) (oldDevice oldDir : Text)
    (entry : Entry) : MountState × Option MountError :=
  match validateLookupFields oldDevice oldDir with
  | some err => (s, some err)
  | none =>
      match readLines disk s with
      | .error err => (s, some err)
      | .ok lines =>
          let r := prepare cfg disk s entry (keptPasswd lines oldDevice oldDir) false
          match r.2 with
          | .error err => (r.1, some err)
          | .ok row =>
              match replaceFirst oldDevice oldDir (formatEntry row) lines with
              | none => (r.1, some (.app .notFound "mount entry not found"))
              | some lines => writeLines disk r.1 lines

def delete (cfg : Config) (disk : Disk) (s : MountState) (device dir : Text) :
    MountState × Option MountError :=
  match validateLookupFields device dir with
  | some err => (s, some err)
  | none =>
      match readLines disk s with
      | .error err => (s, some err)
      | .ok lines =>
          let removed := (lines.filterMap parseFstabLine).filter (Row.isAt device dir)
          let s := removed.foldl (dropSecret cfg disk) s
          if removed = [] then (s, some (.app .notFound "mount entry not found"))
          else writeLines disk s (lines.filter fun line => ¬ lineIsAt device dir line)

inductive MountCall where
  | add (entry : Entry)
  | update (oldDevice oldDir : Text) (entry : Entry)
  | delete (device dir : Text)
  deriving Repr, DecidableEq

def MountCall.run (cfg : Config) (disk : Disk) (s : MountState) :
    MountCall → MountState × Option MountError
  | .add entry => Mounts.add cfg disk s entry
  | .update oldDevice oldDir entry => Mounts.update cfg disk s oldDevice oldDir entry
  | .delete device dir => Mounts.delete cfg disk s device dir

/-- Calls one after the other, each with what the disk does. -/
def step (cfg : Config) (s : MountState) (a : Disk × MountCall) : Option MountState :=
  some (a.2.run cfg a.1 s).1

/-- The entries of a table, without the credentials of S3 entries. -/
def rows (s : MountState) : Except MountError (List Row) :=
  (readLines .sound s).map fun lines => lines.filterMap parseFstabLine

/-- `List`, apart from what is mounted. -/
def list (s : MountState) : Except MountError (List Entry) := (rows s).map (List.map enrichS3ForList)

end GoSite.Mounts
