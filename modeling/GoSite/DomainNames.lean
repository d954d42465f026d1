import GoSite.PathElements
import GoSite.ShellWords
import GoSite.WebsiteService

/-!
# What a domain is used for

A domain names two files and a directory, and it stands unquoted in the command
of the certbot job. The service takes every name that the resolver answers for,
and the resolver answers for an address whatever its zone is.
-/
namespace GoSite.Website
open GoStrings Paths Shell
open GoSite.Terminal (cleanPath joinPath)

/-- The octets of `parseIPv4Fields`. -/
def isOctet (p : List Char) : Bool :=
  p ≠ [] ∧ p.all Char.isDigit ∧ (p = ['0'] ∨ p.head? ≠ some '0') ∧
    p.foldl (fun n c => 10 * n + (c.toNat - '0'.toNat)) 0 ≤ 255

/-- `parseIPv4`. -/
def parseIPv4 (s : List Char) : Bool :=
  let parts := s.splitOn '.'
  parts.length = 4 ∧ parts.all isOctet

def isHexDigit (c : Char) : Bool := c.isDigit || ('a' ≤ c && c ≤ 'f') || ('A' ≤ c && c ≤ 'F')

/-- The loop of `parseIPv6` with as many groups left as fit into the address. -/
@[grind] def parseIPv6Groups : ℕ → Bool → List Char → Bool
  | 0, ellipsis, s => s = [] ∧ ¬ ellipsis
  | n + 1, ellipsis, s =>
      let digits := s.takeWhile isHexDigit
      if digits.length = 0 ∨ 4 < digits.length then false
      else
        match s.drop digits.length with
        | [] => ellipsis = decide (n ≠ 0)
        | '.' :: _ =>
            -- The address may end in four octets, which are two groups.
            (ellipsis ∨ n = 1) ∧ 1 ≤ n ∧ parseIPv4 s ∧ ellipsis = decide (n ≠ 1)
        | [':'] => false
        | ':' :: ':' :: rest =>
            if ellipsis then false
            else if rest = [] then n ≠ 0
            else parseIPv6Groups n true rest
        | ':' :: rest => parseIPv6Groups n ellipsis rest
        | _ => false

/-- `parseIPv6`. A zone is any text behind a percent sign that is not empty. -/
def parseIPv6 (s : List Char) : Bool :=
  let addr := s.takeWhile (· ≠ '%')
  if s.drop addr.length = ['%'] then false
  else
    match addr with
    | [':', ':'] => true
    | ':' :: ':' :: rest => parseIPv6Groups 8 true rest
    | _ => parseIPv6Groups 8 false addr

/-- `netip.ParseAddr`, as far as it accepts the text. -/
def parseAddr (s : List Char) : Bool :=
  match s.find? fun c => c = '.' ∨ c = ':' ∨ c = '%' with
  | some '.' => parseIPv4 s
  | some ':' => parseIPv6 s
  | _ => false

/-- `Paths.SiteD`. -/
def Service.siteD (v : Service) : List Char :=
  joinPath (joinPath v.storage.toList "webconfig".toList) "site.d".toList

/-- `Paths.ActiveD`. -/
def Service.activeD (v : Service) : List Char :=
  joinPath (joinPath v.storage.toList "webconfig".toList) "active.d".toList

/-- The directory of the live certificates. -/
def Service.liveD (v : Service) : List Char :=
  joinPath v.storage.toList "webconfig/ssl/live".toList

/-- The configuration of a domain below one of the first two. -/
def confPath (dir : List Char) (domain : String) : List Char :=
  joinPath dir (domain.toList ++ ".conf".toList)

/-- The command of `EnqueueCertbot`. -/
def certbotCommand (domain : String) : List Char :=
  ("certbot --non-interactive --agree-tos --register-unsafely-without-email --nginx " ++
    "--no-redirect -d ").toList ++ domain.toList

/-- The fixed words of the command. -/
def certbotWords : List (List Char) :=
  ["certbot", "--non-interactive", "--agree-tos", "--register-unsafely-without-email", "--nginx",
    "--no-redirect", "-d"].map String.toList

/-- What `Worker.process` gives to `sh -c`. -/
def workerCommand (output : List Char) : List Char := trimSpaceChars output

/-- A path is a direct child of a directory. -/
def IsChild (cwd : Directory) (dir path : List Char) : Prop :=
  ∃ name, absElements cwd path = absElements cwd dir ++ [name]

/-- The domain stays a file name and an argument. -/
structure Service.Confines (v : Service) (cwd : Directory) (domain : String) : Prop where
  siteD : IsChild cwd v.siteD (confPath v.siteD domain)
  activeD : IsChild cwd v.activeD (confPath v.activeD domain)
  liveD : IsChild cwd v.liveD (joinPath v.liveD domain.toList)
  command : simpleCommand (workerCommand (certbotCommand domain)) =
    some (certbotWords ++ [domain.toList])

/-- Only the last element of a path names anything. -/
def OneElement (path : List Char) : Prop :=
  (∀ e ∈ (path.splitOn '/').dropLast, e = [] ∨ e = ['.']) ∧
    (path.splitOn '/').getLast? ≠ some [] ∧ (path.splitOn '/').getLast? ≠ some ['.']

/-- The shell takes the text as one word that `strings.TrimSpace` leaves whole. -/
def OneArgument (text : List Char) : Prop :=
  PlainWord text ∧ ¬ text.getLast?.any isSpace

instance (path : List Char) : Decidable (OneElement path) := by
  unfold OneElement
  infer_instance

instance (text : List Char) : Decidable (OneArgument text) := by
  unfold OneArgument
  infer_instance

theorem Service.siteD_ne_nil (v : Service) : v.siteD ≠ [] := joinPath_ne_nil _ _

theorem Service.activeD_ne_nil (v : Service) : v.activeD ≠ [] := joinPath_ne_nil _ _

theorem Service.liveD_ne_nil (v : Service) : v.liveD ≠ [] := joinPath_ne_nil _ _

theorem isChild_join {cwd : Directory} {dir path : List Char} (hdir : dir ≠ [])
    (hup : ∀ e ∈ path.splitOn '/', e ≠ ['.', '.']) :
    IsChild cwd dir (joinPath dir path) ↔
      ∃ name, ((path.splitOn '/').filter fun e => e ≠ [] ∧ e ≠ ['.']) = [name] := by
  simp only [IsChild, absElements_join cwd hdir, resolve_down _ hup, List.append_cancel_left_eq]

/-- A path without two dots in a row does not lead upwards. -/
theorem splitOn_ne_up {path : List Char} (hdots : ¬ ['.', '.'] <:+: path) :
    ∀ e ∈ path.splitOn '/', e ≠ ['.', '.'] := by
  rintro e he rfl
  exact hdots (splitOn_isInfix he)

/-- The elements of a domain and of its configuration. -/
theorem splitOn_domain (domain : String) :
    ∃ init last, domain.toList.splitOn '/' = init ++ [last] ∧
      (domain.toList ++ ".conf".toList).splitOn '/' = init ++ [last ++ ".conf".toList] := by
  obtain ⟨init, last, hsplit, happend⟩ := splitOn_last domain.toList
  exact ⟨init, last, hsplit, happend _ (by decide)⟩

theorem conf_ne (last : List Char) :
    last ++ ".conf".toList ≠ [] ∧ last ++ ".conf".toList ≠ ['.'] ∧
      last ++ ".conf".toList ≠ ['.', '.'] := by
  refine ⟨by simp, ?_, ?_⟩ <;> intro h <;> simpa using congrArg List.length h

/-- The configuration is a child where only the last element of the domain counts. -/
theorem isChild_confPath {cwd : Directory} {dir : List Char} {domain : String} (hdir : dir ≠ [])
    (hdots : ¬ ['.', '.'] <:+: domain.toList) :
    IsChild cwd dir (confPath dir domain) ↔
      ∀ e ∈ (domain.toList.splitOn '/').dropLast, e = [] ∨ e = ['.'] := by
  have hup := splitOn_ne_up hdots
  obtain ⟨init, last, hsplit, hconf⟩ := splitOn_domain domain
  rw [hsplit] at hup
  have hupConf : ∀ e ∈ (domain.toList ++ ".conf".toList).splitOn '/', e ≠ ['.', '.'] := by
    intro e he
    rw [hconf] at he
    obtain he | he := List.mem_append.mp he
    · exact hup e (List.mem_append_left _ he)
    · obtain rfl := List.mem_singleton.mp he
      exact (conf_ne last).2.2
  rw [confPath, isChild_join hdir hupConf, hconf, hsplit, List.filter_append,
    List.filter_cons_of_pos (by simpa using (conf_ne last).2.1), List.filter_nil,
    List.dropLast_concat]
  constructor
  · rintro ⟨name, hname⟩
    have hnil : (init.filter fun e => e ≠ [] ∧ e ≠ ['.']) = [] := by
      have hlength := congrArg List.length hname
      simp only [List.length_append, List.length_singleton] at hlength
      exact List.eq_nil_of_length_eq_zero (by omega)
    intro e he
    have hskip := List.filter_eq_nil_iff.mp hnil e he
    simpa [or_iff_not_imp_left] using hskip
  · intro hinit
    refine ⟨last ++ ".conf".toList, ?_⟩
    rw [List.filter_eq_nil_iff.mpr fun e he => by simpa [or_iff_not_imp_left] using hinit e he]
    rfl

/-- The live directory is a child where the last element has a name as well. -/
theorem isChild_live {cwd : Directory} {dir : List Char} {domain : String} (hdir : dir ≠ [])
    (hdots : ¬ ['.', '.'] <:+: domain.toList)
    (hinit : ∀ e ∈ (domain.toList.splitOn '/').dropLast, e = [] ∨ e = ['.']) :
    IsChild cwd dir (joinPath dir domain.toList) ↔
      (domain.toList.splitOn '/').getLast? ≠ some [] ∧
        (domain.toList.splitOn '/').getLast? ≠ some ['.'] := by
  obtain ⟨init, last, hsplit, -⟩ := splitOn_domain domain
  rw [hsplit, List.dropLast_concat] at hinit
  rw [isChild_join hdir (splitOn_ne_up hdots), hsplit, List.filter_append,
    List.filter_eq_nil_iff.mpr fun e he => by simpa [or_iff_not_imp_left] using hinit e he,
    List.nil_append, List.getLast?_concat]
  by_cases hlast : last ≠ [] ∧ last ≠ ['.']
  · rw [List.filter_cons_of_pos (by simpa using hlast)]
    simpa using hlast
  · rw [List.filter_cons_of_neg (by simpa using hlast)]
    simpa using hlast

theorem certbotCommand_eq (domain : String) :
    certbotCommand domain = certbotWords.flatMap (· ++ [' ']) ++ domain.toList :=
  congrArg (· ++ domain.toList) (by simp [certbotWords])

theorem certbotWords_plain : ∀ t ∈ certbotWords, PlainWord t := by decide

theorem rdropWhile_append_all {α : Type*} (p : α → Bool) (xs ys : List α)
    (h : ys.rdropWhile p = []) : (xs ++ ys).rdropWhile p = xs.rdropWhile p := by
  rw [List.rdropWhile_eq_nil_iff] at h
  have hdrop : ys.reverse.dropWhile p = [] := List.dropWhile_eq_nil_iff.mpr (by simpa using h)
  rw [List.rdropWhile, List.reverse_append, List.dropWhile_append, hdrop]
  rfl

theorem rdropWhile_append_some {α : Type*} (p : α → Bool) (xs ys : List α)
    (h : ys.rdropWhile p ≠ []) : (xs ++ ys).rdropWhile p = xs ++ ys.rdropWhile p := by
  have hdrop : ys.reverse.dropWhile p ≠ [] := by simpa [List.rdropWhile] using h
  rw [List.rdropWhile, List.reverse_append, List.dropWhile_append,
    if_neg (by simpa using hdrop), List.reverse_append, List.reverse_reverse]
  rfl

/-- The blanks behind the command are not given to the shell. -/
theorem workerCommand_eq (domain : String) :
    workerCommand (certbotCommand domain) =
      if domain.toList.rdropWhile isSpace = [] then
        certbotWords.dropLast.flatMap (· ++ [' ']) ++ "-d".toList
      else certbotWords.flatMap (· ++ [' ']) ++ domain.toList.rdropWhile isSpace := by
  rw [certbotCommand_eq, workerCommand, trimSpaceChars]
  have hhead : (certbotWords.flatMap (· ++ [' ']) ++ domain.toList).dropWhile isSpace =
      certbotWords.flatMap (· ++ [' ']) ++ domain.toList := rfl
  rw [hhead]
  split_ifs with h
  · rw [rdropWhile_append_all _ _ _ h]
    have hwords : certbotWords.flatMap (· ++ [' ']) =
        certbotWords.dropLast.flatMap (· ++ [' ']) ++ "-d".toList ++ [' '] := by
      simp [certbotWords]
    have hend := List.rdropWhile_concat_neg isSpace
      (certbotWords.dropLast.flatMap (· ++ [' ']) ++ ['-']) 'd' (by decide)
    rw [hwords, List.rdropWhile_concat_pos _ _ _ (by decide)]
    simpa using hend
  · exact rdropWhile_append_some _ _ _ h

theorem rdropWhile_eq_self {α : Type*} (p : α → Bool) (xs : List α) :
    xs.rdropWhile p = xs ↔ ¬ xs.getLast?.any p := by
  rw [List.rdropWhile_eq_self_iff]
  by_cases hne : xs = []
  · simp [hne]
  · simp [hne, List.getLast?_eq_some_getLast hne]

/-- The command is read as it is meant where the domain is one argument. -/
theorem command_iff (domain : String) :
    simpleCommand (workerCommand (certbotCommand domain)) =
        some (certbotWords ++ [domain.toList]) ↔ OneArgument domain.toList := by
  rw [workerCommand_eq, OneArgument, ← rdropWhile_eq_self]
  by_cases hblank : domain.toList.rdropWhile isSpace = []
  · rw [if_pos hblank]
    have hread : simpleCommand (certbotWords.dropLast.flatMap (· ++ [' ']) ++ "-d".toList) =
        some (certbotWords.dropLast ++ ["-d".toList]) :=
      (simpleCommand_last (fun t ht => certbotWords_plain t (List.mem_of_mem_dropLast ht))
        (by decide) (by decide) le_rfl).mpr ⟨rfl, by decide⟩
    rw [hread]
    constructor
    · intro h
      have hlength := congrArg List.length (Option.some.inj h)
      simp [certbotWords] at hlength
    · rintro ⟨hword, hself⟩
      exact absurd (hself.symm.trans hblank) hword.1
  · rw [if_neg hblank, simpleCommand_last certbotWords_plain (by decide) (by decide)
      (List.rdropWhile_prefix isSpace _).length_le, and_comm]

/-- An accepted domain stays a file name and an argument where it is one of each. -/
theorem accepted_domain_confined_iff (v : Service) (e : Weather) (cwd : Directory)
    (domain : String) (haccept : isValidDomain e domain = true) :
    v.Confines cwd domain ↔ OneElement domain.toList ∧ OneArgument domain.toList := by
  have hdots := not_dots_of_isValidDomain haccept
  constructor
  · rintro ⟨hsite, -, hlive, hcommand⟩
    have hinit := (isChild_confPath v.siteD_ne_nil hdots).mp hsite
    exact ⟨⟨hinit, (isChild_live v.liveD_ne_nil hdots hinit).mp hlive⟩,
      (command_iff domain).mp hcommand⟩
  · rintro ⟨⟨hinit, hlast⟩, hargument⟩
    exact ⟨(isChild_confPath v.siteD_ne_nil hdots).mpr hinit,
      (isChild_confPath v.activeD_ne_nil hdots).mpr hinit,
      (isChild_live v.liveD_ne_nil hdots hinit).mpr hlast, (command_iff domain).mpr hargument⟩

/-- The resolver answers for every address. -/
def addressWeather : Weather := { calmWeather with lookupHost := fun d => parseAddr d.toList }

/-- A name that resolves is accepted unless it is too long or has two dots in a row. -/
theorem isValidDomain_of_lookup {e : Weather} {domain : String} (hne : domain ≠ "")
    (hsize : domain.utf8ByteSize ≤ 253) (hdots : ¬ ['.', '.'] <:+: domain.toList)
    (hlookup : e.lookupHost domain = true) : isValidDomain e domain = true := by
  unfold isValidDomain
  rw [if_neg (by simp [hne, hsize]), if_neg hdots, if_pos hlookup]

theorem accepted_domain_confined_demo :
    isValidDomain addressWeather "fe80::1%eth0" = true ∧
      (demoService.Confines ⟨[], by simp⟩ "fe80::1%eth0" ↔
        OneElement "fe80::1%eth0".toList ∧ OneArgument "fe80::1%eth0".toList) := by
  have haccept : isValidDomain addressWeather "fe80::1%eth0" = true :=
    isValidDomain_of_lookup (by decide) (by decide) (by decide) (by decide)
  exact ⟨haccept, accepted_domain_confined_iff demoService addressWeather ⟨[], by simp⟩ _ haccept⟩

/-- The zone of an address can end the command and begin another one. -/
theorem zone_ends_the_command :
    ¬ ∀ (v : Service) (e : Weather) (cwd : Directory) (domain : String),
      (∀ d : String, parseAddr d.toList = true → e.lookupHost d = true) →
      isValidDomain e domain = true → v.Confines cwd domain := by
  intro h
  have haccept : isValidDomain addressWeather "::1%;id" = true :=
    isValidDomain_of_lookup (by decide) (by decide) (by decide) (by decide)
  have hconfined := h demoService addressWeather ⟨[], by simp⟩ "::1%;id" (fun _ hd => hd) haccept
  have hargument := (command_iff _).mp hconfined.command
  revert hargument
  decide

end GoSite.Website
