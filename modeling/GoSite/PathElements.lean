import GoSite.DumpPaths
import GoSite.GoStrings

/-!
# Cleaned paths as lists of elements

A cleaned path that starts with a separator is the list of its elements. `resolve`
walks a path from a directory. One path lies within another when the elements of
the second begin with those of the first, and for a directory other than `/` this
is the comparison of texts that `strings.HasPrefix` makes.
-/
namespace GoSite.Paths
open GoSite.Terminal (cleanElement cleanPath joinPath)

/-- An element that a cleaned path can have. -/
def Plain (element : List Char) : Prop :=
  element ≠ [] ∧ element ≠ ['.'] ∧ element ≠ ['.', '.'] ∧ '/' ∉ element

instance (element : List Char) : Decidable (Plain element) := by
  unfold Plain
  infer_instance

theorem plain_nil : ∀ e ∈ ([] : List (List Char)), Plain e := by simp

/-- Where a path leads from the directory with the elements `dir`. -/
def resolve (dir : List (List Char)) (path : List Char) : List (List Char) :=
  ((path.splitOn '/').foldl (cleanElement true) dir.reverse).reverse

/-- The elements of a path that starts with a separator. -/
def elements (path : List Char) : List (List Char) := resolve [] path

/-- The path with these elements. -/
def rooted (es : List (List Char)) : List Char := '/' :: ['/'].intercalate es

/-- The working directory of a process. -/
structure Directory where
  elements : List (List Char)
  plain : ∀ e ∈ elements, Plain e

/-- `filepath.Abs`. -/
def absPath (cwd : Directory) (path : List Char) : List Char :=
  if path.head? = some '/' then cleanPath path else joinPath (rooted cwd.elements) path

/-- The elements of the absolute path. -/
def absElements (cwd : Directory) (path : List Char) : List (List Char) :=
  if path.head? = some '/' then elements path else resolve cwd.elements path

/-- A path is the directory or lies below it. -/
def Within (dir path : List Char) : Prop := path = dir ∨ (dir ++ ['/']) <+: path

instance (dir path : List Char) : Decidable (Within dir path) := by
  unfold Within
  infer_instance

/-- `os.RemoveAll` of a directory, among the cleaned paths of all files. -/
def removeAll (files : List (List Char)) (dir : List Char) : List (List Char) :=
  files.filter fun path => ¬ Within dir path

/-- `filepath.Dir`. -/
def dirPath (path : List Char) : List Char :=
  cleanPath (path.reverse.dropWhile (· ≠ '/')).reverse

/-- Lying within is beginning with the directory and a separator, once a separator
ends both. -/
theorem within_iff {dir path : List Char} :
    Within dir path ↔ (dir ++ ['/']) <+: (path ++ ['/']) := by
  rw [List.prefix_concat_iff, Within, List.append_left_inj, eq_comm]

/-- Two directories with a common path lie within one another. -/
theorem Within.comparable {d₁ d₂ path : List Char} (h₁ : Within d₁ path) (h₂ : Within d₂ path) :
    Within d₁ d₂ ∨ Within d₂ d₁ := by
  simp only [within_iff] at h₁ h₂ ⊢
  exact List.prefix_or_prefix_of_prefix h₁ h₂

theorem mem_removeAll {files : List (List Char)} {dir path : List Char} :
    path ∈ removeAll files dir ↔ path ∈ files ∧ ¬ Within dir path := by
  simp [removeAll]

section
variable {es fs : List (List Char)} {element name : List Char}

theorem splitOn_plain {path : List Char} {e : List Char} (he : e ∈ path.splitOn '/') :
    '/' ∉ e := GoStrings.not_mem_of_mem_splitOn he

theorem splitOn_head_isPrefix {path first : List Char} {rest : List (List Char)}
    (h : path.splitOn '/' = first :: rest) : first <+: path := by
  induction path generalizing first rest with
  | nil =>
      obtain ⟨rfl, -⟩ := List.cons.inj h
      exact List.prefix_rfl
  | cons c path ih =>
      rw [List.splitOn_cons_eq_if_modifyHead] at h
      split_ifs at h with hc
      · obtain ⟨rfl, -⟩ := List.cons.inj h
        exact List.nil_prefix
      · cases hsplit : path.splitOn '/' with
        | nil => exact absurd hsplit (List.splitOn_ne_nil _ _)
        | cons first' rest' =>
            rw [hsplit] at h
            obtain ⟨rfl, -⟩ := List.cons.inj h
            exact (List.prefix_cons_inj c).mpr (ih hsplit)

/-- An element is a part of its path. -/
theorem splitOn_isInfix {path e : List Char} (he : e ∈ path.splitOn '/') : e <:+: path := by
  induction path generalizing e with
  | nil =>
      rw [List.splitOn_nil, List.mem_singleton] at he
      simp [he]
  | cons c path ih =>
      rw [List.splitOn_cons_eq_if_modifyHead] at he
      split_ifs at he with hc
      · obtain rfl | he := List.mem_cons.mp he
        · exact List.nil_infix
        · exact List.infix_cons (ih he)
      · cases hsplit : path.splitOn '/' with
        | nil => exact absurd hsplit (List.splitOn_ne_nil _ _)
        | cons first rest =>
            rw [hsplit] at he
            obtain rfl | he := List.mem_cons.mp he
            · exact ((List.prefix_cons_inj c).mpr (splitOn_head_isPrefix hsplit)).isInfix
            · exact List.infix_cons (ih (hsplit ▸ List.mem_cons_of_mem _ he))

/-- What is written behind a path belongs to its last element. -/
theorem splitOn_last (path : List Char) :
    ∃ init last, path.splitOn '/' = init ++ [last] ∧
      ∀ text, '/' ∉ text → (path ++ text).splitOn '/' = init ++ [last ++ text] := by
  induction path with
  | nil => exact ⟨[], [], rfl, fun text htext => List.splitOn_eq_singleton htext⟩
  | cons c path ih =>
      obtain ⟨init, last, hsplit, happend⟩ := ih
      by_cases hc : c = '/'
      · subst hc
        refine ⟨[] :: init, last, ?_, fun text htext => ?_⟩
        · simp [List.splitOn_cons_eq_if_modifyHead, hsplit]
        · simp [List.splitOn_cons_eq_if_modifyHead, happend text htext]
      · cases init with
        | nil =>
            refine ⟨[], c :: last, ?_, fun text htext => ?_⟩
            · simp [List.splitOn_cons_eq_if_modifyHead, hc, hsplit]
            · simp [List.splitOn_cons_eq_if_modifyHead, hc, happend text htext]
        | cons first init =>
            refine ⟨(c :: first) :: init, last, ?_, fun text htext => ?_⟩
            · simp [List.splitOn_cons_eq_if_modifyHead, hc, hsplit]
            · simp [List.splitOn_cons_eq_if_modifyHead, hc, happend text htext]

theorem cleanElement_plain (hes : ∀ e ∈ es, Plain e) (hslash : '/' ∉ element) :
    ∀ e ∈ cleanElement true es element, Plain e := by
  unfold cleanElement
  by_cases hskip : element = [] ∨ element = ['.']
  · rwa [if_pos hskip]
  · rw [if_neg hskip]
    by_cases hup : element = ['.', '.']
    · rw [if_pos hup]
      cases es with
      | nil => simp
      | cons last rest =>
          have hlast : last ≠ ['.', '.'] := (hes last List.mem_cons_self).2.2.1
          simp only [hlast, if_false]
          exact fun e he => hes e (List.mem_cons_of_mem _ he)
    · rw [if_neg hup]
      intro e he
      rcases List.mem_cons.mp he with rfl | he
      · exact ⟨fun h => hskip (.inl h), fun h => hskip (.inr h), hup, hslash⟩
      · exact hes e he

/-- An element that is plain goes on the stack. -/
theorem cleanElement_of_plain (he : Plain element) : cleanElement true es element = element :: es := by
  unfold cleanElement
  rw [if_neg (not_or.mpr ⟨he.1, he.2.1⟩), if_neg he.2.2.1]

theorem foldl_cleanElement_plain {path : List (List Char)} (hpath : ∀ e ∈ path, '/' ∉ e)
    (hes : ∀ e ∈ es, Plain e) : ∀ e ∈ path.foldl (cleanElement true) es, Plain e := by
  induction path generalizing es with
  | nil => exact hes
  | cons e path ih =>
      rw [List.foldl_cons]
      exact ih (fun f hf => hpath f (List.mem_cons_of_mem _ hf))
        (cleanElement_plain hes (hpath e List.mem_cons_self))

theorem foldl_cleanElement_of_plain (hfs : ∀ e ∈ fs, Plain e) :
    fs.foldl (cleanElement true) es = fs.reverse ++ es := by
  induction fs generalizing es with
  | nil => rfl
  | cons f fs ih =>
      rw [List.foldl_cons, cleanElement_of_plain (hfs f List.mem_cons_self),
        ih fun e he => hfs e (List.mem_cons_of_mem _ he), List.reverse_cons, List.append_assoc]
      rfl

/-- Without steps upwards a path leads down its named elements. -/
theorem resolve_down {path : List Char} (es : List (List Char))
    (hup : ∀ e ∈ path.splitOn '/', e ≠ ['.', '.']) :
    resolve es path = es ++ (path.splitOn '/').filter fun e => e ≠ [] ∧ e ≠ ['.'] := by
  have hfold : ∀ (fs stack : List (List Char)), (∀ e ∈ fs, e ≠ ['.', '.']) →
      fs.foldl (cleanElement true) stack =
        (fs.filter fun e => e ≠ [] ∧ e ≠ ['.']).reverse ++ stack := by
    intro fs
    induction fs with
    | nil => simp
    | cons f fs ih =>
        intro stack hfs
        obtain ⟨hf, hfs⟩ := List.forall_mem_cons.mp hfs
        rw [List.foldl_cons, ih _ hfs]
        unfold cleanElement
        by_cases hskip : f = [] ∨ f = ['.']
        · rw [if_pos hskip, List.filter_cons_of_neg (by simpa [or_iff_not_imp_left] using hskip)]
        · rw [if_neg hskip, if_neg hf, List.filter_cons_of_pos (by simpa using hskip)]
          simp
  rw [resolve, hfold _ _ hup]
  simp

theorem resolve_plain (hes : ∀ e ∈ es, Plain e) (path : List Char) :
    ∀ e ∈ resolve es path, Plain e := by
  intro e he
  exact foldl_cleanElement_plain (fun _ => splitOn_plain) (by simpa using hes) e
    (List.mem_reverse.mp he)

theorem elements_plain (path : List Char) : ∀ e ∈ elements path, Plain e :=
  resolve_plain (by simp) path

/-- A plain name leads to a child. -/
theorem resolve_name (hname : Plain name) : resolve es name = es ++ [name] := by
  rw [resolve, List.splitOn_eq_singleton hname.2.2.2, List.foldl_cons, List.foldl_nil,
    cleanElement_of_plain hname, List.reverse_cons, List.reverse_reverse]

/-- A path is walked one part after the other. -/
theorem resolve_append (dir path : List Char) :
    resolve es (dir ++ '/' :: path) = resolve (resolve es dir) path := by
  simp only [resolve, List.splitOn_append_cons_self, List.foldl_append, List.reverse_reverse]

theorem cleanPath_of_rooted {path : List Char} (h : path.head? = some '/') :
    cleanPath path = rooted (elements path) := by
  simp only [cleanPath, h, rooted, elements, resolve, decide_true, if_true, List.reverse_nil]

theorem splitOn_rooted (hes : ∀ e ∈ es, Plain e) (hne : es ≠ []) :
    (rooted es).splitOn '/' = [] :: es := by
  have hsplit := List.splitOn_intercalate '/' (fun e he => (hes e he).2.2.2) hne
  rw [rooted, List.splitOn_cons_eq_if_modifyHead, if_pos (by simp), hsplit]

/-- The elements of a cleaned path are the ones it was made of. -/
theorem resolve_rooted (dir : List (List Char)) (hes : ∀ e ∈ es, Plain e) :
    resolve dir (rooted es) = dir ++ es := by
  by_cases hne : es = []
  · subst hne
    rw [resolve, show (rooted []).splitOn '/' = [[], []] by decide]
    simp [cleanElement]
  · rw [resolve, splitOn_rooted hes hne, List.foldl_cons, foldl_cleanElement_of_plain hes]
    simp [cleanElement]

theorem elements_rooted (hes : ∀ e ∈ es, Plain e) : elements (rooted es) = es := by
  rw [elements, resolve_rooted [] hes, List.nil_append]

theorem rooted_injective (hes : ∀ e ∈ es, Plain e) (hfs : ∀ e ∈ fs, Plain e)
    (h : rooted es = rooted fs) : es = fs := by
  rw [← elements_rooted hes, h, elements_rooted hfs]

@[simp] theorem head?_rooted (es : List (List Char)) : (rooted es).head? = some '/' := rfl

@[simp] theorem cleanPath_rooted (hes : ∀ e ∈ es, Plain e) : cleanPath (rooted es) = rooted es := by
  rw [cleanPath_of_rooted rfl, elements_rooted hes]

theorem cleanPath_ne_nil (path : List Char) : cleanPath path ≠ [] := by
  unfold cleanPath
  dsimp only
  split_ifs with hroot hempty
  · simp
  · simp
  · exact hempty

theorem joinPath_ne_nil (dir path : List Char) : joinPath dir path ≠ [] := by
  unfold joinPath
  split_ifs <;> exact cleanPath_ne_nil _

/-- A join with an absolute directory walks from it. -/
theorem joinPath_rooted (hes : ∀ e ∈ es, Plain e) (path : List Char) :
    joinPath (rooted es) path = rooted (resolve es path) := by
  have hne : rooted es ≠ [] := by simp [rooted]
  rw [joinPath, if_neg hne, cleanPath_of_rooted (by simp [rooted]), elements, resolve_append,
    resolve_rooted [] hes, List.nil_append]

theorem joinPath_name (hes : ∀ e ∈ es, Plain e) (hname : Plain name) :
    joinPath (rooted es) name = rooted (es ++ [name]) := by
  rw [joinPath_rooted hes, resolve_name hname]

theorem rooted_append (hes : es ≠ []) (hfs : fs ≠ []) :
    rooted (es ++ fs) = rooted es ++ rooted fs := by
  have hinter : ['/'].intercalate (es ++ fs) =
      ['/'].intercalate es ++ '/' :: ['/'].intercalate fs := by
    induction es with
    | nil => exact absurd rfl hes
    | cons e es ih =>
        by_cases hnil : es = []
        · subst hnil
          rw [List.singleton_append, List.intercalate_cons_of_ne_nil hfs,
            List.intercalate_singleton, List.append_assoc]
          rfl
        · rw [List.cons_append, List.intercalate_cons_of_ne_nil (by simp [hnil]), ih hnil,
            List.intercalate_cons_of_ne_nil hnil]
          simp
  rw [rooted, hinter]
  rfl

/-- What a relative path keeps while it is cleaned leads where the path leads. -/
theorem walk_cleanElement {kept base : List (List Char)}
    (hkept : ∀ e ∈ kept, e ≠ [] ∧ e ≠ ['.']) (element : List Char) :
    (cleanElement false kept element).reverse.foldl (cleanElement true) base =
      cleanElement true (kept.reverse.foldl (cleanElement true) base) element := by
  have hpush : (element :: kept).reverse.foldl (cleanElement true) base =
      cleanElement true (kept.reverse.foldl (cleanElement true) base) element := by
    rw [List.reverse_cons, List.foldl_append]
    rfl
  by_cases hskip : element = [] ∨ element = ['.']
  · have hself : ∀ b stack, cleanElement b stack element = stack := by
      intro b stack
      unfold cleanElement
      rw [if_pos hskip]
    rw [hself, hself]
  · by_cases hup : element = ['.', '.']
    · subst hup
      cases kept with
      | nil => rfl
      | cons last rest =>
          by_cases hlast : last = ['.', '.']
          · rw [← hpush]
            unfold cleanElement
            simp [hlast]
          · obtain ⟨hne, hdot⟩ := hkept last List.mem_cons_self
            have hleft : cleanElement false (last :: rest) ['.', '.'] = rest := by
              unfold cleanElement
              simp [hlast]
            have hlast' : ∀ stack, cleanElement true stack last = last :: stack := by
              intro stack
              unfold cleanElement
              rw [if_neg (not_or.mpr ⟨hne, hdot⟩), if_neg hlast]
            rw [hleft, List.reverse_cons, List.foldl_append, List.foldl_cons, List.foldl_nil, hlast']
            unfold cleanElement
            simp [hlast]
    · have hleft : cleanElement false kept element = element :: kept := by
        unfold cleanElement
        rw [if_neg hskip, if_neg hup]
      rw [hleft, hpush]

theorem cleanElement_kept {rooted : Bool} {kept : List (List Char)}
    (hkept : ∀ e ∈ kept, (e ≠ [] ∧ e ≠ ['.']) ∧ '/' ∉ e) (hslash : '/' ∉ element) :
    ∀ e ∈ cleanElement rooted kept element, (e ≠ [] ∧ e ≠ ['.']) ∧ '/' ∉ e := by
  have hpush : element ≠ [] → element ≠ ['.'] →
      ∀ e ∈ element :: kept, (e ≠ [] ∧ e ≠ ['.']) ∧ '/' ∉ e := by
    intro hne hdot e he
    rcases List.mem_cons.mp he with rfl | he
    · exact ⟨⟨hne, hdot⟩, hslash⟩
    · exact hkept e he
  unfold cleanElement
  by_cases hskip : element = [] ∨ element = ['.']
  · rwa [if_pos hskip]
  · obtain ⟨hne, hdot⟩ := not_or.mp hskip
    rw [if_neg hskip]
    by_cases hup : element = ['.', '.']
    · rw [if_pos hup]
      cases kept with
      | nil =>
          cases rooted with
          | true => simp
          | false => exact hpush hne hdot
      | cons last rest =>
          dsimp only
          split_ifs
          · exact hpush hne hdot
          · exact fun e he => hkept e (List.mem_cons_of_mem _ he)
    · rw [if_neg hup]
      exact hpush hne hdot

/-- The stack of a relative path, and where it leads. -/
theorem walk_clean {path kept : List (List Char)} (base : List (List Char))
    (hkept : ∀ e ∈ kept, (e ≠ [] ∧ e ≠ ['.']) ∧ '/' ∉ e) (hpath : ∀ e ∈ path, '/' ∉ e) :
    (∀ e ∈ path.foldl (cleanElement false) kept, (e ≠ [] ∧ e ≠ ['.']) ∧ '/' ∉ e) ∧
      (path.foldl (cleanElement false) kept).reverse.foldl (cleanElement true) base =
        path.foldl (cleanElement true) (kept.reverse.foldl (cleanElement true) base) := by
  induction path generalizing kept with
  | nil => exact ⟨hkept, rfl⟩
  | cons e path ih =>
      obtain ⟨hslash, hpath⟩ := List.forall_mem_cons.mp hpath
      obtain ⟨hmem, hwalk⟩ := ih (cleanElement_kept hkept hslash) hpath
      refine ⟨hmem, ?_⟩
      rw [List.foldl_cons, hwalk, walk_cleanElement (fun f hf => (hkept f hf).1), List.foldl_cons]

/-- Cleaning a relative path does not change where it leads. -/
theorem resolve_cleanPath (es : List (List Char)) {path : List Char} (h : path.head? ≠ some '/') :
    resolve es (cleanPath path) = resolve es path ∧ (cleanPath path).head? ≠ some '/' := by
  obtain ⟨hkept, hwalk⟩ := @walk_clean (path.splitOn '/') [] es.reverse (by simp)
    fun _ he => splitOn_plain he
  set stack := (path.splitOn '/').foldl (cleanElement false) [] with hstack
  have hclean : cleanPath path =
      if ['/'].intercalate stack.reverse = [] then ['.'] else ['/'].intercalate stack.reverse := by
    simp only [cleanPath, h, decide_false, if_false, hstack]
  have hslash : ∀ e ∈ stack.reverse, '/' ∉ e := fun e he => (hkept e (List.mem_reverse.mp he)).2
  by_cases hnil : stack = []
  · have hdot : cleanPath path = ['.'] := by
      rw [hclean, hnil]
      rfl
    rw [hdot]
    refine ⟨?_, by decide⟩
    rw [hnil, List.reverse_nil, List.foldl_nil] at hwalk
    rw [resolve, resolve, show (['.'] : List Char).splitOn '/' = [['.']] by decide]
    have hself : cleanElement true es.reverse ['.'] = es.reverse := by
      unfold cleanElement
      simp
    rw [List.foldl_cons, List.foldl_nil, hself, ← hwalk]
  · have hrev : stack.reverse ≠ [] := by simpa using hnil
    have hsplit := List.splitOn_intercalate '/' hslash hrev
    have htext : ['/'].intercalate stack.reverse ≠ [] := by
      intro hempty
      rw [hempty, List.splitOn_nil] at hsplit
      have hmem : ([] : List Char) ∈ stack.reverse := by rw [← hsplit]; exact List.mem_cons_self
      exact (hkept _ (List.mem_reverse.mp hmem)).1.1 rfl
    rw [hclean, if_neg htext]
    refine ⟨?_, ?_⟩
    · rw [resolve, resolve, hsplit, hwalk, List.reverse_nil, List.foldl_nil]
    · cases hfirst : stack.reverse with
      | nil => exact absurd hfirst hrev
      | cons first rest =>
          have hmem : first ∈ stack := by
            rw [← List.mem_reverse, hfirst]
            exact List.mem_cons_self
          cases first with
          | nil => exact absurd rfl (hkept _ hmem).1.1
          | cons c cs =>
              have hc : c ≠ '/' := fun hc => (hkept _ hmem).2 (hc ▸ List.mem_cons_self)
              cases rest <;> simpa [List.intercalate_cons_cons] using hc

/-- An absolute path is the path of its elements. -/
theorem absPath_eq (cwd : Directory) (path : List Char) :
    absPath cwd path = rooted (absElements cwd path) := by
  unfold absPath absElements
  split_ifs with h
  · exact cleanPath_of_rooted h
  · exact joinPath_rooted cwd.plain path

theorem absElements_plain (cwd : Directory) (path : List Char) :
    ∀ e ∈ absElements cwd path, Plain e := by
  unfold absElements
  split_ifs
  · exact elements_plain path
  · exact resolve_plain cwd.plain path

/-- A join walks on from its directory. -/
theorem absElements_join (cwd : Directory) {dir : List Char} (hdir : dir ≠ []) (path : List Char) :
    absElements cwd (joinPath dir path) = resolve (absElements cwd dir) path := by
  rw [joinPath, if_neg hdir]
  have hhead : (dir ++ '/' :: path).head? = dir.head? := by
    cases dir with
    | nil => exact absurd rfl hdir
    | cons c cs => rfl
  by_cases h : dir.head? = some '/'
  · rw [cleanPath_of_rooted (hhead.trans h), absElements, if_pos (head?_rooted _),
      elements_rooted (elements_plain _), absElements, if_pos h, elements, resolve_append]
    rfl
  · obtain ⟨hresolve, hrel⟩ := resolve_cleanPath cwd.elements (hhead ▸ h)
    rw [absElements, if_neg hrel, hresolve, absElements, if_neg h, resolve_append]

/-- A join of a directory, which may be empty, with a relative path. -/
theorem absElements_join_relative (cwd : Directory) (dir : List Char) :
    ∃ es, ∀ path : List Char, path.head? ≠ some '/' →
      absElements cwd (joinPath dir path) = resolve es path := by
  by_cases hdir : dir = []
  · refine ⟨cwd.elements, fun path hpath => ?_⟩
    obtain ⟨hresolve, hhead⟩ := resolve_cleanPath cwd.elements hpath
    rw [joinPath, if_pos hdir, absElements, if_neg hhead, hresolve]
  · exact ⟨absElements cwd dir, fun path _ => absElements_join cwd hdir path⟩

/-- The directory of a child. -/
theorem dirPath_name (hes : ∀ e ∈ es, Plain e) (hne : es ≠ []) (hname : Plain name) :
    dirPath (rooted (es ++ [name])) = rooted es := by
  have htext : rooted (es ++ [name]) = rooted es ++ '/' :: name := by
    rw [rooted_append hne (by simp), rooted, rooted, List.intercalate_singleton]
  have hdrop : (rooted (es ++ [name])).reverse.dropWhile (· ≠ '/') =
      '/' :: (rooted es).reverse := by
    rw [htext, List.reverse_append, List.reverse_cons, List.append_assoc, List.singleton_append,
      List.dropWhile_append_of_pos]
    · simp
    · intro c hc
      have hslash : c ≠ '/' := fun h => hname.2.2.2 (h ▸ List.mem_reverse.mp hc)
      simpa using hslash
  rw [dirPath, hdrop, List.reverse_cons, List.reverse_reverse, cleanPath_of_rooted (by simp [rooted]),
    elements, resolve_append, resolve_rooted [] hes, List.nil_append, resolve, List.splitOn_nil]
  have hself : cleanElement true es.reverse [] = es.reverse := by
    unfold cleanElement
    simp
  rw [List.foldl_cons, List.foldl_nil, hself, List.reverse_reverse]

/-- Below a directory other than the root, lying within is having its elements
first. -/
theorem within_rooted_iff (hes : ∀ e ∈ es, Plain e) (hfs : ∀ e ∈ fs, Plain e) (hne : es ≠ []) :
    Within (rooted es) (rooted fs) ↔ es <+: fs := by
  constructor
  · rintro (heq | ⟨rest, hrest⟩)
    · rw [rooted_injective hfs hes heq]
    · have hsplit : (rooted fs).splitOn '/' = ([] :: es) ++ rest.splitOn '/' := by
        rw [← hrest, List.append_assoc, List.singleton_append, List.splitOn_append_cons_self,
          splitOn_rooted hes hne]
      by_cases hnil : fs = []
      · have hlen := congrArg List.length hsplit
        rw [hnil, show (rooted []).splitOn '/' = [[], []] by decide] at hlen
        have hes' := List.length_pos_iff.mpr hne
        have hrest' := List.length_pos_iff.mpr (List.splitOn_ne_nil '/' rest)
        simp only [List.length_append, List.length_cons, List.length_nil] at hlen
        omega
      · rw [splitOn_rooted hfs hnil, List.cons_append, List.cons.injEq] at hsplit
        exact ⟨_, hsplit.2.symm⟩
  · rintro ⟨gs, rfl⟩
    by_cases hnil : gs = []
    · exact .inl (by rw [hnil, List.append_nil])
    · refine .inr ⟨['/'].intercalate gs, ?_⟩
      rw [rooted_append hne hnil, List.append_assoc]
      rfl

end

end GoSite.Paths
