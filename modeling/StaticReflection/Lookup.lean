import StaticReflection.Files.Tree
import StaticReflection.Reflection.Basic

/-!
Lookups. A lookup reads files, remembers answers, counts calls and hands out instances; all of that
is a session, which a lookup takes and gives back, also when it fails. Remembered answers are kept
apart by the memo that stores them, by the mode of building, by who asks, and by what is asked for.
-/

namespace StaticReflection

/-- A reflection as handed out. Two of one number are the same instance. -/
structure Found where
  number : Nat
  reflection : Reflection
  deriving Repr

/-- Under which a memo keeps its answers: its slot, and the mode and the asker of a lookup. -/
structure MemoPlace where
  slot : Nat
  mode : BuildMode
  asker : Nat
  deriving DecidableEq, Repr

/-- Answers by keys. -/
structure AnswerTable (α β : Type) where
  entries : List (α × β)

namespace AnswerTable

variable {α β : Type} [BEq α]

def empty : AnswerTable α β := ⟨[]⟩

def get? (t : AnswerTable α β) (key : α) : Option β := t.entries.lookup key

/-- Stores an answer unless the key has one. -/
def store (t : AnswerTable α β) (key : α) (answer : β) : AnswerTable α β :=
  match t.get? key with
  | some _ => t
  | none => ⟨t.entries ++ [(key, answer)]⟩

theorem store_of_get?_eq_some {t : AnswerTable α β} {key : α} {old : β} (h : t.get? key = some old)
    (answer : β) : t.store key answer = t := by
  unfold store
  rw [h]

theorem get?_store_self [LawfulBEq α] {t : AnswerTable α β} {key : α} (h : t.get? key = none)
    (answer : β) : (t.store key answer).get? key = some answer := by
  unfold store
  rw [h]
  change (t.entries ++ [(key, answer)]).lookup key = some answer
  have hlookup : t.entries.lookup key = none := h
  rw [List.lookup_append, hlookup]
  simp

theorem get?_store_of_ne [LawfulBEq α] {t : AnswerTable α β} {key other : α} (h : other ≠ key)
    (answer : β) : (t.store key answer).get? other = t.get? other := by
  unfold store
  cases t.get? key with
  | some old => rfl
  | none =>
    change (t.entries ++ [(key, answer)]).lookup other = t.entries.lookup other
    have hother : (other == key) = false := by simpa using h
    rw [List.lookup_append, List.lookup_cons, hother]
    simp

end AnswerTable

/-- What lookups leave behind for later ones: the files, the remembered answers, how often each
counter was passed, and the number of the next instance. -/
structure Session where
  files : FileTree
  located : AnswerTable (MemoPlace × Kind × String) (Option Found)
  listed : AnswerTable (MemoPlace × Kind) (List Found)
  calls : List Nat
  nextInstance : Nat

namespace Session

def start (files : FileTree) : Session := ⟨files, .empty, .empty, [], 0⟩

/-- How often a counter was passed. -/
def callsOf (s : Session) (counter : Nat) : Nat := s.calls.count counter

end Session

/-- A computation that may fail and leaves a session behind in any case. -/
abbrev Lookup := ExceptT Error (StateM Session)

namespace Lookup

/-- The outcome of a lookup and the session behind it. -/
def start {α : Type} (l : Lookup α) (s : Session) : Except Error α × Session := l.run.run s

def ofExcept {α : Type} : Except Error α → Lookup α
  | .ok a => pure a
  | .error e => throw e

def ofFiles {α : Type} (read : FileTree → Except Error α) : Lookup α := do
  ofExcept (read (← get).files)

@[simp] theorem start_pure {α : Type} (a : α) (s : Session) :
    (pure a : Lookup α).start s = (.ok a, s) := rfl

@[simp] theorem start_throw {α : Type} (e : Error) (s : Session) :
    (throw e : Lookup α).start s = (.error e, s) := rfl

/-- The second part of a lookup runs on the session that the first leaves behind, unless that
fails. -/
theorem start_bind {α β : Type} (l : Lookup α) (next : α → Lookup β) (s : Session) :
    (l >>= next).start s = match l.start s with
      | (.ok a, t) => (next a).start t
      | (.error e, t) => (.error e, t) := by
  simp only [start, ExceptT.run_bind, StateT.run_bind]
  rcases l.run.run s with ⟨_ | a, t⟩ <;> rfl

/-- A lookup in two parts succeeds when both do. -/
theorem start_bind_eq_ok {α β : Type} {l : Lookup α} {next : α → Lookup β} {s u : Session} {b : β} :
    (l >>= next).start s = (.ok b, u) ↔
      ∃ a t, l.start s = (.ok a, t) ∧ (next a).start t = (.ok b, u) := by
  rw [start_bind]
  rcases l.start s with ⟨e | a, t⟩
  · simp
  · constructor
    · intro h
      exact ⟨a, t, rfl, h⟩
    · rintro ⟨_, _, hl, hnext⟩
      cases hl
      exact hnext

theorem start_map {α β : Type} (f : α → β) (l : Lookup α) (s : Session) :
    (f <$> l).start s = ((l.start s).1.map f, (l.start s).2) := by
  rw [map_eq_pure_bind, start_bind]
  rcases l.start s with ⟨_ | a, t⟩ <;> rfl

@[simp] theorem start_get (s : Session) : (get : Lookup Session).start s = (.ok s, s) := rfl

@[simp] theorem start_ofExcept {α : Type} (r : Except Error α) (s : Session) :
    (ofExcept r).start s = (r, s) := by
  cases r <;> rfl

@[simp] theorem start_ofFiles {α : Type} (read : FileTree → Except Error α) (s : Session) :
    (ofFiles read).start s = (read s.files, s) := start_ofExcept (read s.files) s

/-- A lookup whose answer passes a test has answered. -/
theorem exists_of_any {α : Type} {l : Lookup α} {s : Session} {test : α → Bool}
    (h : (l.start s).1.toOption.any test = true) :
    ∃ a, l.start s = (.ok a, (l.start s).2) ∧ test a = true := by
  rcases hl : l.start s with ⟨e | a, t⟩ <;> rw [hl] at h
  · cases h
  · exact ⟨a, rfl, h⟩

def handOut (r : Reflection) : Lookup Found := do
  let s ← get
  set { s with nextInstance := s.nextInstance + 1 }
  return ⟨s.nextInstance, r⟩

@[simp] theorem start_handOut (r : Reflection) (s : Session) :
    (handOut r).start s =
      (.ok ⟨s.nextInstance, r⟩, { s with nextInstance := s.nextInstance + 1 }) := rfl

def countCall (counter : Nat) : Lookup Unit :=
  modify fun s => { s with calls := counter :: s.calls }

@[simp] theorem start_countCall (counter : Nat) (s : Session) :
    (countCall counter).start s = (.ok (), { s with calls := counter :: s.calls }) := rfl

/-- The remembered answer for an identifier. Without one `ask` is run, and what it gives is
remembered unless it fails; an answer that was stored meanwhile stays. -/
def rememberLocated (place : MemoPlace) (kind : Kind) (key : String)
    (ask : Lookup (Option Found)) : Lookup (Option Found) := do
  match (← get).located.get? (place, kind, key) with
  | some answer => return answer
  | none =>
    let answer ← ask
    modify fun s => { s with located := s.located.store (place, kind, key) answer }
    return ((← get).located.get? (place, kind, key)).getD answer

def rememberListed (place : MemoPlace) (kind : Kind) (ask : Lookup (List Found)) :
    Lookup (List Found) := do
  match (← get).listed.get? (place, kind) with
  | some answer => return answer
  | none =>
    let answer ← ask
    modify fun s => { s with listed := s.listed.store (place, kind) answer }
    return ((← get).listed.get? (place, kind)).getD answer

end Lookup

end StaticReflection
