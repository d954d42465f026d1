import GoSite.EventIds
import GoSite.FilterEval
import GoSite.SearchParser
import GoSite.StableSorts

/-!
# The pipe commands

The commands after a search cut its events off or sort them by a field. To sort
in descending order the comparison is negated, which also holds of two events
with one key: their order is turned around.
-/
namespace GoSite.Observability
open GoStrings StableSorts

/-- A value of `Meta` by its type. A JSON number is given by the integer that it
converts to. -/
inductive MetaValue where
  | int (n : ℤ)
  | float (n : ℤ)
  | text (s : String)
  | other
  deriving Repr, DecidableEq

/-- An event with its id and the types of the values of its `Meta`. -/
structure TypedEvent extends QueryEvent where
  id : List UInt8
  values : List (String × MetaValue)
  deriving Repr, DecidableEq

def eventIntMeta (ev : TypedEvent) (key : String) : ℤ :=
  match ev.values.lookup key with
  | some (.int n) | some (.float n) => n
  | some (.text s) => (atoi s.toList).1
  | some .other | none => 0

def compareEventField (a b : TypedEvent) (field : String) : Bool :=
  if field = "ts" ∨ field = "time" then a.ts < b.ts
  else if field = "source" then a.source < b.source
  else if field = "action" then a.action < b.action
  else if field = "user" then a.user < b.user
  else if field = "status" ∨ field = "status_code" then
    eventIntMeta a "status_code" < eventIntMeta b "status_code"
  else if field = "message" then a.message < b.message
  else a.ts < b.ts

section
variable (g : GoText)

/-- The field name that is compared. -/
def sortField (field : String) : String := g.lower (trimSpace field)

def sortEvents (events : List TypedEvent) (field : String) (desc : Bool) : List TypedEvent :=
  if events.length < 2 then events
  else
    let field := sortField g field
    stable (fun a b =>
      let less := compareEventField a b field
      if desc then !less else less) events

def applyPipe (events : List TypedEvent) (pipe : PipeCmd) : List TypedEvent :=
  if pipe.name = "head" then
    if pipe.limit > 0 ∧ events.length > pipe.limit then events.take pipe.limit.toNat else events
  else if pipe.name = "sort" then sortEvents g events pipe.field pipe.desc
  else events

def applyPipes (events : List TypedEvent) (pipes : List PipeCmd) : List TypedEvent :=
  pipes.foldl (applyPipe g) events

end

/-! ## What a stable sort is -/

/-- Neither of two events is less than the other. -/
def sameKey {α : Type*} (less : α → α → Bool) (a b : α) : Bool := !less a b && !less b a

/-- A permutation in the order of `less` in which events of one key are in the
order they had. -/
structure IsStableSort {α : Type*} (less : α → α → Bool) (events out : List α) : Prop where
  perm : out.Perm events
  sorted : out.Pairwise fun a b => less b a = false
  stable : ∀ e ∈ events, out.filter (sameKey less e) = events.filter (sameKey less e)

/-- The comparison of a field in one direction. -/
def fieldLess (field : String) (desc : Bool) (a b : TypedEvent) : Bool :=
  if desc then compareEventField b a field else compareEventField a b field

theorem perm_short {α : Type*} {l m : List α} (h : m.Perm l) (hl : l.length < 2) : m = l := by
  match l with
  | [] => exact List.perm_nil.mp h
  | [x] => exact List.perm_singleton.mp h
  | x :: y :: l =>
      simp only [List.length_cons] at hl
      omega

section
variable {κ : Type*} [LinearOrder κ] {key : TypedEvent → κ} {field : String}
  {events : List TypedEvent}

theorem sameKey_of_key (hkey : ∀ a b, compareEventField a b field = decide (key a < key b))
    (desc : Bool) (a b : TypedEvent) : sameKey (fieldLess field desc) a b = decide (key a = key b) := by
  have hnot : (!decide (key a < key b) && !decide (key b < key a)) = decide (key a = key b) := by
    obtain h | h | h := lt_trichotomy (key a) (key b)
    · simp [h, h.ne]
    · simp [h]
    · simp [h, h.ne']
  cases desc with
  | false => simpa [sameKey, fieldLess, hkey] using hnot
  | true => simpa [sameKey, fieldLess, hkey, Bool.and_comm] using hnot

/-- Ascending, the sort is stable. -/
theorem isStableSort_ascending
    (hkey : ∀ a b, compareEventField a b field = decide (key a < key b)) :
    IsStableSort (fieldLess field false) events
      (stable (fun a b => compareEventField a b field) events) := by
  have hless : (fun a b => compareEventField a b field) = fun a b => decide (key a < key b) := by
    funext a b
    exact hkey a b
  rw [hless]
  obtain ⟨hperm, hsorted, hfilter⟩ := arranged_stable (arranging_key key) events
  refine ⟨hperm, ?_, ?_⟩
  · refine hsorted.imp ?_
    intro a b hab
    simpa [fieldLess, hkey] using hab
  · intro e _
    have hsame : sameKey (fieldLess field false) e = fun b => decide (key e = key b) := by
      funext b
      exact sameKey_of_key hkey false e b
    rw [hsame, hfilter _ false]
    · simp
    · intro x _ y _ hx hy
      rw [decide_eq_true_eq] at hx hy
      simp [← hx, ← hy]

/-- Descending, the events of a key are turned around. -/
theorem stable_descending (hkey : ∀ a b, compareEventField a b field = decide (key a < key b)) :
    (stable (fun a b => !compareEventField a b field) events).Perm events ∧
      (stable (fun a b => !compareEventField a b field) events).Pairwise
        (fun a b => fieldLess field true b a = false) ∧
      ∀ e ∈ events, (stable (fun a b => !compareEventField a b field) events).filter
        (sameKey (fieldLess field true) e) =
          (events.filter (sameKey (fieldLess field true) e)).reverse := by
  have hless : (fun a b => !compareEventField a b field) = fun a b => !decide (key a < key b) := by
    funext a b
    rw [hkey]
  rw [hless]
  obtain ⟨hperm, hsorted, hfilter⟩ := arranged_stable (arranging_not_key key) events
  refine ⟨hperm, ?_, ?_⟩
  · refine hsorted.imp ?_
    intro a b hab
    simpa [fieldLess, hkey] using hab
  · intro e _
    have hsame : sameKey (fieldLess field true) e = fun b => decide (key e = key b) := by
      funext b
      exact sameKey_of_key hkey true e b
    rw [hsame, hfilter _ true]
    · simp
    · intro x _ y _ hx hy
      rw [decide_eq_true_eq] at hx hy
      simp [← hx, ← hy]

theorem stable_perm (hkey : ∀ a b, compareEventField a b field = decide (key a < key b))
    (desc : Bool) :
    (stable (fun a b => if desc then !compareEventField a b field else compareEventField a b field)
      events).Perm events := by
  cases desc with
  | false =>
      simp only [Bool.false_eq_true, if_false]
      exact (isStableSort_ascending hkey).perm
  | true =>
      simp only [if_true]
      exact (stable_descending hkey).1

end

/-- Each field is compared by a key: a number, a time or a text. -/
theorem exists_key (field : String) :
    (∃ key : TypedEvent → ℤ, ∀ a b, compareEventField a b field = decide (key a < key b)) ∨
      ∃ key : TypedEvent → String, ∀ a b, compareEventField a b field = decide (key a < key b) := by
  simp only [compareEventField]
  split_ifs
  · exact Or.inl ⟨fun ev => ev.ts, fun _ _ => rfl⟩
  · exact Or.inr ⟨fun ev => ev.source, fun _ _ => rfl⟩
  · exact Or.inr ⟨fun ev => ev.action, fun _ _ => rfl⟩
  · exact Or.inr ⟨fun ev => ev.user, fun _ _ => rfl⟩
  · exact Or.inl ⟨fun ev => eventIntMeta ev "status_code", fun _ _ => rfl⟩
  · exact Or.inr ⟨fun ev => ev.message, fun _ _ => rfl⟩
  · exact Or.inl ⟨fun ev => ev.ts, fun _ _ => rfl⟩

section
variable (g : GoText) (events : List TypedEvent) (field : String)

/-- A list too short to sort is the result of sorting it. -/
theorem sortEvents_eq (desc : Bool) :
    sortEvents g events field desc = stable (fun a b =>
      if desc then !compareEventField a b (sortField g field)
      else compareEventField a b (sortField g field)) events := by
  rw [sortEvents]
  by_cases hshort : events.length < 2
  · rw [if_pos hshort]
    refine (perm_short ?_ hshort).symm
    obtain ⟨key, hkey⟩ | ⟨key, hkey⟩ := exists_key (sortField g field)
    · exact stable_perm hkey desc
    · exact stable_perm hkey desc
  · rw [if_neg hshort]

theorem sortEvents_ascending :
    IsStableSort (fieldLess (sortField g field) false) events (sortEvents g events field false) := by
  rw [sortEvents_eq]
  simp only [Bool.false_eq_true, if_false]
  obtain ⟨key, hkey⟩ | ⟨key, hkey⟩ := exists_key (sortField g field)
  · exact isStableSort_ascending hkey
  · exact isStableSort_ascending hkey

theorem sortEvents_descending :
    (sortEvents g events field true).Perm events ∧
      (sortEvents g events field true).Pairwise
        (fun a b => fieldLess (sortField g field) true b a = false) ∧
      ∀ e ∈ events, (sortEvents g events field true).filter
        (sameKey (fieldLess (sortField g field) true) e) =
          (events.filter (sameKey (fieldLess (sortField g field) true) e)).reverse := by
  rw [sortEvents_eq]
  simp only [if_true]
  obtain ⟨key, hkey⟩ | ⟨key, hkey⟩ := exists_key (sortField g field)
  · exact stable_descending hkey
  · exact stable_descending hkey

/-- The sort pipe is stable exactly when it ascends, or the events of each key
read the same from both ends. -/
theorem sort_pipe_stable_iff (args : List String) (limit : ℤ) (desc : Bool) :
    IsStableSort (fieldLess (sortField g field) desc) events
      (applyPipes g events [⟨"sort", args, limit, field, desc⟩]) ↔
      desc = false ∨ ∀ e ∈ events,
        (events.filter (sameKey (fieldLess (sortField g field) desc) e)).reverse =
          events.filter (sameKey (fieldLess (sortField g field) desc) e) := by
  have hpipe : applyPipes g events [⟨"sort", args, limit, field, desc⟩] =
      sortEvents g events field desc := rfl
  rw [hpipe]
  cases desc with
  | false =>
      refine iff_of_true (sortEvents_ascending g events field) (Or.inl rfl)
  | true =>
      obtain ⟨hperm, hsorted, hfilter⟩ := sortEvents_descending g events field
      constructor
      · intro h
        right
        intro e he
        rw [← hfilter e he]
        exact h.stable e he
      · rintro (hdesc | hsame)
        · simp at hdesc
        · refine ⟨hperm, hsorted, ?_⟩
          intro e he
          rw [hfilter e he, hsame e he]

end

def logLine (message : String) : TypedEvent where
  ts := 0
  source := sourceAccess
  action := "log.line"
  user := ""
  message := message
  metadata := [("site", "example.com")]
  id := eventID sourceAccess 0 message
  values := [("site", .text "example.com")]

/-- Two lines of one second change places. -/
theorem sort_descending_not_stable :
    ¬ IsStableSort (fieldLess (sortField asciiText "ts") true)
      [logLine "GET /a", logLine "GET /b"]
      (applyPipes asciiText [logLine "GET /a", logLine "GET /b"] [⟨"sort", ["-ts"], 0, "ts", true⟩]) := by
  intro h
  have hpipe : applyPipes asciiText [logLine "GET /a", logLine "GET /b"]
      [⟨"sort", ["-ts"], 0, "ts", true⟩] =
      sortEvents asciiText [logLine "GET /a", logLine "GET /b"] "ts" true := rfl
  have hstable := h.stable (logLine "GET /a") List.mem_cons_self
  rw [hpipe, (sortEvents_descending asciiText _ "ts").2.2 _ List.mem_cons_self] at hstable
  revert hstable
  decide

end GoSite.Observability
