import Mathlib

/-!
# The path of a dump file

`DumpPathFor` joins the dump directory with a file name made from the session
id. `filepath.Join` cleans the result: it drops empty elements and `.`, and a
`..` takes away the element before it. The id is not looked at, so an id with a
separator can name any file whose name ends in `.log`.
-/
namespace GoSite.Terminal

/-- One element of a path on the stack of the elements kept so far, the last one
first. -/
def cleanElement (rooted : Bool) (kept : List (List Char)) (element : List Char) :
    List (List Char) :=
  if element = [] ∨ element = ['.'] then kept
  else if element = ['.', '.'] then
    match kept with
    | [] => if rooted then [] else [element]
    | last :: rest => if last = ['.', '.'] then element :: kept else rest
  else element :: kept

/-- `filepath.Clean` on Unix. -/
def cleanPath (path : List Char) : List Char :=
  let rooted := path.head? = some '/'
  let elements := ((path.splitOn '/').foldl (cleanElement rooted) []).reverse
  let text := ['/'].intercalate elements
  if rooted then '/' :: text else if text = [] then ['.'] else text

/-- `filepath.Join` of a directory and a name that is not empty. -/
def joinPath (dir name : List Char) : List Char :=
  if dir = [] then cleanPath name else cleanPath (dir ++ '/' :: name)

/-- The name of the dump file of a session. -/
def dumpName (sessionID : String) : List Char :=
  "gosite-term-".toList ++ sessionID.toList ++ ".log".toList

/-- `DumpPathFor`. -/
def dumpPathFor (dumpDir sessionID : String) : List Char :=
  joinPath dumpDir.toList (dumpName sessionID)

end GoSite.Terminal
