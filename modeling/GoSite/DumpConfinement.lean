import GoSite.PathElements
import GoSite.TerminalServer

/-!
# Where the dump files of a terminal lie

The session id of a request goes unchanged into the name of the dump file, and the
name is joined to the dump directory. A walk along the name climbs above its start
whenever the id has more `..` than names before them. The file is inside the dump
directory exactly when the walk does not climb, or comes down again through the
names it climbed over. Every file call that a session's code makes names that file
or the temporary file next to it.
-/
namespace GoSite.Paths
open GoSite.Terminal (cleanElement cleanPath joinPath)

/-- How far a path climbs above its start, and the elements it then goes down, the
last one first. -/
structure Walk where
  up : ℕ
  down : List (List Char)
  deriving Repr, DecidableEq

def Walk.step (w : Walk) (element : List Char) : Walk :=
  if element = [] ∨ element = ['.'] then w
  else if element = ['.', '.'] then
    match w.down with
    | [] => { w with up := w.up + 1 }
    | _ :: rest => { w with down := rest }
  else { w with down := element :: w.down }

def walk (path : List Char) : Walk := (path.splitOn '/').foldl Walk.step ⟨0, []⟩

/-- The walk comes down through the names it climbed over, and ends below them. -/
def Walk.Returns (w : Walk) (dir : List (List Char)) : Prop :=
  dir.drop (dir.length - w.up) <+: w.down.tail.reverse

instance (w : Walk) (dir : List (List Char)) : Decidable (w.Returns dir) := by
  unfold Walk.Returns
  infer_instance

/-- A path that lies inside a directory, both as lists of elements. -/
def Below (dir path : List (List Char)) : Prop := ∃ rest, rest ≠ [] ∧ path = dir ++ rest

section
variable {es : List (List Char)} {path l text : List Char}

theorem below_concat {dir parent : List (List Char)} {name : List Char} :
    Below dir (parent ++ [name]) ↔ dir <+: parent := by
  constructor
  · rintro ⟨rest, hne, heq⟩
    refine ⟨rest.dropLast, ?_⟩
    have h := congrArg List.dropLast heq
    rw [List.dropLast_concat, List.dropLast_append_of_ne_nil hne] at h
    exact h.symm
  · rintro ⟨rest, rfl⟩
    exact ⟨rest ++ [name], by simp, by rw [List.append_assoc]⟩

theorem Walk.step_of_plain (w : Walk) (hl : Plain l) :
    w.step l = { w with down := l :: w.down } := by
  unfold Walk.step
  rw [if_neg (not_or.mpr ⟨hl.1, hl.2.1⟩), if_neg hl.2.2.1]

/-- One element of the path, on the stack of a walk that began with `es`. -/
theorem cleanElement_walk {w : Walk} (hes : ∀ e ∈ es, e ≠ ['.', '.'])
    (hw : ∀ e ∈ w.down, e ≠ ['.', '.']) (element : List Char) :
    cleanElement true (w.down ++ es.drop w.up) element =
        (w.step element).down ++ es.drop (w.step element).up ∧
      ∀ e ∈ (w.step element).down, e ≠ ['.', '.'] := by
  unfold cleanElement Walk.step
  by_cases hskip : element = [] ∨ element = ['.']
  · rw [if_pos hskip, if_pos hskip]
    exact ⟨rfl, hw⟩
  · rw [if_neg hskip, if_neg hskip]
    by_cases hup : element = ['.', '.']
    · rw [if_pos hup, if_pos hup]
      cases hdown : w.down with
      | nil =>
          refine ⟨?_, by simp⟩
          rw [List.nil_append, List.nil_append, ← List.drop_drop]
          cases hrest : es.drop w.up with
          | nil => rfl
          | cons last rest =>
              have hlast : last ≠ ['.', '.'] :=
                hes last (List.mem_of_mem_drop (hrest ▸ List.mem_cons_self))
              simp [hlast]
      | cons last rest =>
          have hlast : last ≠ ['.', '.'] := hw last (hdown ▸ List.mem_cons_self)
          refine ⟨by simp [hlast], ?_⟩
          exact fun e he => hw e (hdown ▸ List.mem_cons_of_mem _ he)
    · rw [if_neg hup, if_neg hup]
      exact ⟨rfl, List.forall_mem_cons.mpr ⟨hup, hw⟩⟩

theorem foldl_cleanElement_walk {w : Walk} (hes : ∀ e ∈ es, e ≠ ['.', '.'])
    (hw : ∀ e ∈ w.down, e ≠ ['.', '.']) (elements : List (List Char)) :
    elements.foldl (cleanElement true) (w.down ++ es.drop w.up) =
      (elements.foldl Walk.step w).down ++ es.drop (elements.foldl Walk.step w).up := by
  induction elements generalizing w with
  | nil => rfl
  | cons e elements ih =>
      obtain ⟨hstep, hdown⟩ := cleanElement_walk hes hw e
      rw [List.foldl_cons, List.foldl_cons, hstep, ih hdown]

/-- A path leads up its levels and down its elements. -/
theorem resolve_walk (hes : ∀ e ∈ es, Plain e) (path : List Char) :
    resolve es path = es.take (es.length - (walk path).up) ++ (walk path).down.reverse := by
  have h := @foldl_cleanElement_walk es.reverse ⟨0, []⟩
    (fun e he => (hes e (List.mem_reverse.mp he)).2.2.1) (by simp) (path.splitOn '/')
  rw [List.nil_append, List.drop_zero] at h
  rw [resolve, h, List.reverse_append, List.drop_reverse, List.reverse_reverse, walk]

/-- What the last element of a path says about where the path leads. -/
theorem walk_concat {init : List (List Char)} (hsplit : path.splitOn '/' = init ++ [l])
    (hl : Plain l) : ∃ w : Walk, walk path = ⟨w.up, l :: w.down⟩ := by
  refine ⟨init.foldl Walk.step ⟨0, []⟩, ?_⟩
  rw [walk, hsplit, List.foldl_append, List.foldl_cons, List.foldl_nil, Walk.step_of_plain _ hl]

theorem foldl_cleanElement_kept {rooted : Bool} {kept elements : List (List Char)}
    (hkept : ∀ e ∈ kept, (e ≠ [] ∧ e ≠ ['.']) ∧ '/' ∉ e) (hes : ∀ e ∈ elements, '/' ∉ e) :
    ∀ e ∈ elements.foldl (cleanElement rooted) kept, (e ≠ [] ∧ e ≠ ['.']) ∧ '/' ∉ e := by
  induction elements generalizing kept with
  | nil => exact hkept
  | cons e elements ih =>
      obtain ⟨he, hes⟩ := List.forall_mem_cons.mp hes
      exact ih (cleanElement_kept hkept he) hes

/-- Cleaning keeps a last element that is plain. -/
theorem cleanPath_last {init : List (List Char)} (hsplit : path.splitOn '/' = init ++ [l])
    (hl : Plain l) : ∃ init', (cleanPath path).splitOn '/' = init' ++ [l] := by
  set rooted : Bool := decide (path.head? = some '/') with hrooted
  set stack := init.foldl (cleanElement rooted) [] with hstack
  have hslash : ∀ e ∈ stack.reverse ++ [l], '/' ∉ e := by
    intro e he
    rcases List.mem_append.mp he with he | he
    · refine (@foldl_cleanElement_kept rooted [] init (by simp) ?_ e (List.mem_reverse.mp he)).2
      intro f hf
      exact splitOn_plain (hsplit ▸ List.mem_append_left _ hf)
    · rw [List.mem_singleton.mp he]
      exact hl.2.2.2
  have hfold : ((path.splitOn '/').foldl (cleanElement rooted) []).reverse =
      stack.reverse ++ [l] := by
    rw [hsplit, List.foldl_append, List.foldl_cons, List.foldl_nil, ← hstack]
    have hpush : cleanElement rooted stack l = l :: stack := by
      unfold cleanElement
      rw [if_neg (not_or.mpr ⟨hl.1, hl.2.1⟩), if_neg hl.2.2.1]
    rw [hpush, List.reverse_cons]
  have hinter := List.splitOn_intercalate '/' hslash (by simp)
  have htext : ['/'].intercalate (stack.reverse ++ [l]) ≠ [] := by
    intro hempty
    rw [hempty, List.splitOn_nil] at hinter
    have hmem : l ∈ [([] : List Char)] := hinter ▸ List.mem_append_right _ List.mem_cons_self
    exact hl.1 (List.mem_singleton.mp hmem)
  have hclean : cleanPath path =
      if rooted then '/' :: ['/'].intercalate (stack.reverse ++ [l])
      else ['/'].intercalate (stack.reverse ++ [l]) := by
    simp only [cleanPath, ← hrooted, hfold, if_neg htext]
    simp only [hrooted, decide_eq_true_eq]
  rw [hclean]
  by_cases hr : rooted = true
  · refine ⟨[] :: stack.reverse, ?_⟩
    rw [if_pos hr, List.splitOn_cons_eq_if_modifyHead, if_pos (by simp), hinter, List.cons_append]
  · exact ⟨stack.reverse, by rw [if_neg hr, hinter]⟩

theorem joinPath_last (dir : List Char) {init : List (List Char)}
    (hsplit : path.splitOn '/' = init ++ [l]) (hl : Plain l) :
    ∃ init', (joinPath dir path).splitOn '/' = init' ++ [l] := by
  unfold joinPath
  split_ifs
  · exact cleanPath_last hsplit hl
  · refine @cleanPath_last _ _ (dir.splitOn '/' ++ init) ?_ hl
    rw [List.splitOn_append_cons_self, hsplit, List.append_assoc]

theorem resolve_concat {init : List (List Char)} (hsplit : path.splitOn '/' = init ++ [l])
    (hl : Plain l) :
    resolve es path = (init.foldl (cleanElement true) es.reverse).reverse ++ [l] := by
  rw [resolve, hsplit, List.foldl_append, List.foldl_cons, List.foldl_nil, cleanElement_of_plain hl,
    List.reverse_cons]

/-- A longer last element names a file in the same directory. -/
theorem absElements_longer (cwd : Directory) {init : List (List Char)}
    (hsplit : path.splitOn '/' = init ++ [l]) (hl : Plain l) (htext : '/' ∉ text)
    (hlonger : Plain (l ++ text)) (hpath : path ≠ []) :
    ∃ parent, absElements cwd path = parent ++ [l] ∧
      absElements cwd (path ++ text) = parent ++ [l ++ text] := by
  obtain ⟨init', last, hsplit', happend⟩ := splitOn_last path
  obtain ⟨rfl, hlast⟩ := List.append_inj' (hsplit'.symm.trans hsplit) rfl
  obtain rfl : last = l := List.singleton_injective hlast
  have hhead : (path ++ text).head? = path.head? := by
    cases path with
    | nil => exact absurd rfl hpath
    | cons c cs => rfl
  unfold absElements
  rw [hhead]
  by_cases hroot : path.head? = some '/'
  · rw [if_pos hroot, if_pos hroot, elements, elements, resolve_concat hsplit hl,
      resolve_concat (happend text htext) hlonger]
    exact ⟨_, rfl, rfl⟩
  · rw [if_neg hroot, if_neg hroot, resolve_concat hsplit hl,
      resolve_concat (happend text htext) hlonger]
    exact ⟨_, rfl, rfl⟩

/-- A join of a directory, which may be empty, with a path that does not start with
a separator. -/
theorem absElements_joinPath (cwd : Directory) (dir : List Char) (hpath : path.head? ≠ some '/') :
    absElements cwd (joinPath dir path) = resolve (absElements cwd dir) path := by
  by_cases hdir : dir = []
  · obtain ⟨hresolve, hhead⟩ := resolve_cleanPath cwd.elements hpath
    have hempty : resolve cwd.elements [] = cwd.elements := by
      simp [resolve, List.splitOn_nil, cleanElement]
    rw [joinPath, if_pos hdir, absElements, if_neg hhead, hresolve, hdir, absElements,
      if_neg (by simp), hempty]
  · exact absElements_join cwd hdir path

/-- A walk that ends in a name leads below a directory exactly when it comes down
through the names it climbed over. -/
theorem prefix_walk_iff {w : Walk} {dir : List (List Char)} :
    dir <+: dir.take (dir.length - w.up) ++ w.down.tail.reverse ↔ w.Returns dir := by
  rw [Walk.Returns]
  nth_rewrite 1 [← List.take_append_drop (dir.length - w.up) dir]
  exact List.prefix_append_right_inj _

end

end GoSite.Paths

namespace GoSite.Terminal
open GuardedRuns Paths

/-- A call to the file system. -/
inductive FileCall where
  | stat (path : List Char)
  | mkdirAll (dir : List Char)
  | openFile (path : List Char)
  | readFile (path : List Char)
  | writeFile (path : List Char)
  | rename (old new : List Char)
  | remove (path : List Char)
  deriving Repr, DecidableEq

/-- The files a call reads, writes or removes. -/
def FileCall.files : FileCall → List (List Char)
  | .stat path | .openFile path | .readFile path | .writeFile path | .remove path => [path]
  | .rename old new => [old, new]
  | .mkdirAll _ => []

/-- The calls of `RollingFile.Append`. -/
def appendCalls (path : List Char) (trims : Bool) : List FileCall :=
  let tmp := path ++ ".tmp".toList
  [.mkdirAll (dirPath path), .openFile path] ++
    (if trims then [.readFile path, .writeFile tmp, .rename tmp path] else []) ++ [.stat path]

/-- The session whose dump a section is about, and the calls it makes. `Meta` looks up
the size of the dump. -/
def Server.fileCalls (cfg : ServerConfig) (s : Server) :
    Thread → Env → Option (String × List FileCall)
  | .attachOrCreate _ sessionID, .ok =>
      if sessionID = "" ∨ (s.hub.get sessionID).isSome then none
      else some (sessionID, [.stat (dumpPathFor cfg.dumpDir sessionID)])
  | .start _ id, _ => some (id, [.stat (dumpPathFor cfg.dumpDir id)])
  | .snapshot _ r, _ | .pump _ r, .ok =>
      some (r.id, [.readFile (dumpPathFor cfg.dumpDir r.id)])
  | .getSnapshot _ id, .ok | .kill id, .ok =>
      (s.hub.get id).map fun r => (r.id, [.stat (dumpPathFor cfg.dumpDir r.id)])
  | .reply _ r, .ok =>
      let path := dumpPathFor cfg.dumpDir r.id
      some (r.id, [.readFile path, .stat path, .stat path, .stat path])
  | .killSession r, .ok | .finish r, .ok =>
      if r ∈ s.closed then none else some (r.id, [.remove (dumpPathFor cfg.dumpDir r.id)])
  | .append r data, .ok =>
      let file := s.rolling cfg r
      some (r.id,
        appendCalls (dumpPathFor cfg.dumpDir r.id) (file.size + data.length > file.max))
  | _, _ => none

/-- The session and the calls of a step. -/
def Server.callsOf (cfg : ServerConfig) (s : Server) :
    ServerAction → Option (String × List FileCall)
  | .advance t env => if t ∈ s.threads then s.fileCalls cfg t env else none
  | _ => none

/-- Every file a step touches for the session id lies inside the dump directory. -/
def StaysInside (cwd : Directory) (cfg : ServerConfig) (id : String) (s : Server)
    (a : ServerAction) : Prop :=
  ∀ calls, s.callsOf cfg a = some (id, calls) → ∀ c ∈ calls, ∀ file ∈ c.files,
    Below (absElements cwd cfg.dumpDir.toList) (absElements cwd file)

/-- The files of a session. -/
def dumpFiles (dumpDir sessionID : String) : List (List Char) :=
  [dumpPathFor dumpDir sessionID, dumpPathFor dumpDir sessionID ++ ".tmp".toList]

theorem files_of_appendCalls {path : List Char} {trims : Bool} {c : FileCall} {file : List Char}
    (hc : c ∈ appendCalls path trims) (hfile : file ∈ c.files) :
    file = path ∨ file = path ++ ".tmp".toList := by
  unfold appendCalls at hc
  cases trims with
  | true =>
      simp only [if_true, List.mem_append, List.mem_cons, List.not_mem_nil, or_false] at hc
      rcases hc with ((rfl | rfl) | rfl | rfl | rfl) | rfl <;>
        simp only [FileCall.files, List.mem_cons, List.not_mem_nil, or_false] at hfile <;> tauto
  | false =>
      simp only [Bool.false_eq_true, if_false, List.append_nil, List.mem_append, List.mem_cons,
        List.not_mem_nil, or_false] at hc
      rcases hc with (rfl | rfl) | rfl <;>
        simp only [FileCall.files, List.mem_cons, List.not_mem_nil, or_false] at hfile <;> tauto

/-- Every section of every goroutine stays with the two files of its session. -/
theorem fileCalls_files {cfg : ServerConfig} {s : Server} {t : Thread} {env : Env} {id : String}
    {calls : List FileCall} (h : s.fileCalls cfg t env = some (id, calls)) :
    ∀ c ∈ calls, ∀ file ∈ c.files, file ∈ dumpFiles cfg.dumpDir id := by
  have hone : ∀ path : List Char, path ∈ dumpFiles cfg.dumpDir id ↔
      path = dumpPathFor cfg.dumpDir id ∨ path = dumpPathFor cfg.dumpDir id ++ ".tmp".toList := by
    simp [dumpFiles]
  simp only [hone]
  unfold Server.fileCalls at h
  split at h
  · split_ifs at h
    cases h
    simp [FileCall.files]
  · cases h
    simp [FileCall.files]
  · cases h
    simp [FileCall.files]
  · cases h
    simp [FileCall.files]
  · obtain ⟨r, -, hr⟩ := Option.map_eq_some_iff.mp h
    cases hr
    simp [FileCall.files]
  · obtain ⟨r, -, hr⟩ := Option.map_eq_some_iff.mp h
    cases hr
    simp [FileCall.files]
  · cases h
    simp [FileCall.files]
  · split_ifs at h
    cases h
    simp [FileCall.files]
  · split_ifs at h
    cases h
    simp [FileCall.files]
  · cases h
    exact fun c hc file hfile => files_of_appendCalls hc hfile
  · cases h

theorem plain_longer {e text : List Char} (he : '/' ∉ e) (htext : '/' ∉ text)
    (hlen : 2 < text.length) : Plain (e ++ text) := by
  have hlong : 2 < (e ++ text).length := by rw [List.length_append]; omega
  refine ⟨?_, ?_, ?_, ?_⟩
  · exact List.ne_nil_of_length_pos (by omega)
  · intro h
    rw [h] at hlong
    exact absurd hlong (by decide)
  · intro h
    rw [h] at hlong
    exact absurd hlong (by decide)
  · simp [he, htext]

/-- The last element of the name of a dump. -/
theorem dumpName_last (id : String) : ∃ init last, '/' ∉ last ∧
    (dumpName id).splitOn '/' = init ++ [last ++ ".log".toList] := by
  obtain ⟨init, last, hsplit, happend⟩ := splitOn_last ("gosite-term-".toList ++ id.toList)
  refine ⟨init, last, ?_, happend _ (by simp)⟩
  exact splitOn_plain (hsplit ▸ List.mem_append_right _ List.mem_cons_self)

/-- Both files of a session lie in one directory, at the end of the walk along the
name. -/
theorem below_dumpFiles_iff (cwd : Directory) (dumpDir id : String) :
    ∀ file ∈ dumpFiles dumpDir id,
      (Below (absElements cwd dumpDir.toList) (absElements cwd file) ↔
        (walk (dumpName id)).Returns (absElements cwd dumpDir.toList)) := by
  set dir := absElements cwd dumpDir.toList with hdir
  obtain ⟨init, last, hlast, hsplit⟩ := dumpName_last id
  have hl : Plain (last ++ ".log".toList) := plain_longer hlast (by simp) (by simp)
  have htmp : Plain (last ++ ".log".toList ++ ".tmp".toList) :=
    plain_longer hl.2.2.2 (by simp) (by simp)
  obtain ⟨init', hjoin⟩ := joinPath_last dumpDir.toList hsplit hl
  obtain ⟨parent, hpath, hlonger⟩ :=
    absElements_longer cwd hjoin hl (by simp) htmp (joinPath_ne_nil _ _)
  obtain ⟨w, hw⟩ := walk_concat hsplit hl
  have hparent : parent = dir.take (dir.length - w.up) ++ w.down.reverse := by
    have hhead : (dumpName id).head? ≠ some '/' := by
      rw [show (dumpName id).head? = some 'g' from rfl]
      decide
    rw [absElements_joinPath cwd _ hhead, ← hdir, resolve_walk (absElements_plain _ _), hw,
      List.reverse_cons, ← List.append_assoc] at hpath
    exact (List.append_left_injective _ hpath).symm
  have hreturns : dir <+: parent ↔ (walk (dumpName id)).Returns dir := by
    rw [hparent, hw, ← prefix_walk_iff]
    rfl
  intro file hfile
  simp only [dumpFiles, List.mem_cons, List.not_mem_nil, or_false] at hfile
  rcases hfile with rfl | rfl
  · rw [dumpPathFor, hpath, below_concat, hreturns]
  · rw [dumpPathFor, hlonger, below_concat, hreturns]

/-- The walk of an id without a separator does not leave its start. -/
theorem returns_of_no_separator {id : String} (h : '/' ∉ id.toList) (dir : List (List Char)) :
    (walk (dumpName id)).Returns dir := by
  have hstem : '/' ∉ "gosite-term-".toList ++ id.toList := by
    intro hmem
    rcases List.mem_append.mp hmem with hmem | hmem
    · revert hmem
      decide
    · exact h hmem
  have hplain : Plain (dumpName id) := plain_longer hstem (by decide) (by decide)
  rw [walk, List.splitOn_eq_singleton hplain.2.2.2, List.foldl_cons, List.foldl_nil,
    Walk.step_of_plain _ hplain]
  simp [Walk.Returns]

/-- In every run of the server every file touched for the id lies inside the dump
directory, exactly when the walk along the name of the dump comes back below it. -/
theorem dump_files_inside_iff (cwd : Directory) (cfg : ServerConfig) (id : String) :
    (∀ dumps actions,
        Guarded (serverStep cfg) (StaysInside cwd cfg id) (Server.init cfg dumps) actions) ↔
      (walk (dumpName id)).Returns (absElements cwd cfg.dumpDir.toList) := by
  have hfiles := below_dumpFiles_iff cwd cfg.dumpDir id
  constructor
  · intro h
    by_cases hempty : id = ""
    · exact returns_of_no_separator (by simp [hempty]) _
    · -- The first request for the id looks for its dump.
      have hguard := h (fun _ => none)
        [.call (.attachOrCreate 1 id), .advance (.attachOrCreate 1 id) .ok]
      obtain ⟨-, hrest⟩ := hguard _ rfl
      obtain ⟨hstays, -⟩ := hrest _ (by
        simp [serverStep, Server.sectionOf, hempty, Server.init]
        rfl)
      have hcalls := hstays [.stat (dumpPathFor cfg.dumpDir id)]
        (by simp [Server.callsOf, Server.fileCalls, hempty, Server.init])
      exact (hfiles _ List.mem_cons_self).mp
        (hcalls _ List.mem_cons_self _ List.mem_cons_self)
  · intro hreturns dumps actions
    have hgood : ∀ s a, StaysInside cwd cfg id s a := by
      intro s a calls hcalls c hc file hfile
      cases a with
      | call | exit | restart => cases hcalls
      | advance t env =>
          rw [Server.callsOf, Option.ite_none_right_eq_some] at hcalls
          exact (hfiles file (fileCalls_files hcalls.2 c hc file hfile)).mpr hreturns
    have halong : Along (serverStep cfg) (fun _ => True) (Server.init cfg dumps) actions :=
      along_of_invariant (fun _ _ _ _ _ => trivial) actions trivial
    exact halong.guarded fun s a _ => hgood s a

/-- A client asks for a session whose id climbs out of the dump directory. -/
def climbingID : String := "/../../etc/motd"

/-- The shell of the new session prints one byte. -/
def climbingRun : List ServerAction :=
  let r : SessionRef := ⟨0, climbingID, 1⟩
  let data : List OutByte := [⟨97, some 1⟩]
  [.call (.attachOrCreate 1 climbingID), .advance (.attachOrCreate 1 climbingID) .ok,
    .advance (.create 1 climbingID) (.newID "01"), .advance (.start 1 climbingID) .ok,
    .advance (.register 1 r) .ok, .advance (.readLoop r) (.output [97]),
    .advance (.append r data) .ok]

/-- The dump directory is `/tmp`, and the output of the shell is in `/etc/motd.log`. -/
theorem climbing_id_leaves_dump_directory :
    (∃ t, run (serverStep demoConfig) (Server.init demoConfig fun _ => none) climbingRun =
        some t ∧ t.dumps "/etc/motd.log".toList = some [⟨97, some 1⟩]) ∧
    ¬ Guarded (serverStep demoConfig) (StaysInside ⟨[], by simp⟩ demoConfig climbingID)
      (Server.init demoConfig fun _ => none) climbingRun := by
  refine ⟨⟨_, rfl, by decide⟩, ?_⟩
  intro hguard
  obtain ⟨-, hrest⟩ := hguard _ rfl
  obtain ⟨hstays, -⟩ := hrest _ rfl
  have hbelow := hstays [.stat (dumpPathFor "/tmp" climbingID)] rfl _ List.mem_cons_self _
    List.mem_cons_self
  have hreturns := (below_dumpFiles_iff _ _ climbingID _ List.mem_cons_self).mp hbelow
  exact absurd hreturns (by decide)

end GoSite.Terminal
