import StaticReflection.Proofs.Chains
import StaticReflection.Proofs.MemoHistory

/-!
Reflectors with and without a memo. A memo keeps its answers by the key of an identifier, but what
is behind it may read the name as it is spelled. So the answer that counts is that of the first
lookup with the same key that did not fail. Where equal identifiers are read alike, the memo cannot
be seen.
-/

namespace StaticReflection

theorem Identifier.Agrees.refl (a : Identifier) : a.Agrees a := ⟨rfl, rfl, rfl⟩

namespace Reflectors

/-- The same reflectors with a memo in front of their locator. -/
def memoized (r : Reflectors) (slot : Nat) : Reflectors :=
  { r with locator := .memo slot r.locator }

/-- The identifier that a lookup asks for. -/
def identifier (r : Reflectors) (lookup : Kind × String) : Identifier :=
  .make r.rules lookup.1 lookup.2

/-- The answers of lookups that are made one after the other. -/
def answers (r : Reflectors) : List (Kind × String) → Session → List (Except Error Reflection)
  | [], _ => []
  | (kind, name) :: rest, s =>
    let (answer, t) := (r.reflect kind name).start s
    answer.map (·.reflection) :: r.answers rest t

/-- What the locator finds for an identifier where nothing was looked for before. -/
def foundFresh (r : Reflectors) (files : FileTree) (id : Identifier) :
    Except Error (Option Reflection) :=
  ((r.locate id.kind.asker id).start (.start files)).1.map seen

/-- The answer for an identifier that follows from what a locator finds. -/
def answerOf (id : Identifier) : Except Error (Option Reflection) → Except Error Reflection
  | .ok (some r) => if r.kind = id.kind then .ok r else .error (.unexpectedKind id.kind r.kind)
  | .ok none => .error (.identifierNotFound id)
  | .error e => .error e

theorem start_reflect (r : Reflectors) (kind : Kind) (name : String) (s : Session) :
    ((r.reflect kind name).start s).1.map (·.reflection) =
        answerOf (r.identifier (kind, name))
          (((r.locate kind.asker (r.identifier (kind, name))).start s).1.map seen) ∧
      ((r.reflect kind name).start s).2 =
        ((r.locate kind.asker (r.identifier (kind, name))).start s).2 := by
  unfold reflect
  simp only [Lookup.start_bind]
  change _ = answerOf _
      (Except.map seen ((r.locate kind.asker (.make r.rules kind name)).start s).1) ∧
    _ = ((r.locate kind.asker (.make r.rules kind name)).start s).2
  rcases (r.locate kind.asker (.make r.rules kind name)).start s with ⟨e | _ | found, t⟩
  · exact ⟨rfl, rfl⟩
  · exact ⟨rfl, rfl⟩
  · change ((ofKind kind found).start t).1.map (·.reflection) =
        (if found.reflection.kind = kind then .ok found.reflection
          else .error (.unexpectedKind kind found.reflection.kind)) ∧
      ((ofKind kind found).start t).2 = t
    unfold ofKind
    by_cases hkind : found.reflection.kind = kind
    · rw [if_pos hkind, if_pos hkind]
      exact ⟨rfl, rfl⟩
    · rw [if_neg hkind, if_neg hkind]
      exact ⟨rfl, rfl⟩

section Questions

variable {I J : Session → Prop} {x y : Reflectors}

/-- Whether a function exists is answered alike where functions are located alike. -/
theorem alike_hasFunctionAt_succ {depth : Nat} {name : String}
    (h : (x.locator.locate (x.hasFunctionAt depth) ⟨x.mode, Kind.function.asker⟩
        (x.identifier (.function, name))).Alike I J seen
      (y.locator.locate (y.hasFunctionAt depth) ⟨y.mode, Kind.function.asker⟩
        (y.identifier (.function, name)))) :
    (x.hasFunctionAt (depth + 1) name).Alike I J id (y.hasFunctionAt (depth + 1) name) := by
  apply h.bind
  intro found found' hseen
  cases found with
  | none =>
    cases found' with
    | none => exact Lookup.alike_pure rfl
    | some _ => cases hseen
  | some found =>
    cases found' with
    | none => cases hseen
    | some found' =>
      have hreflection : found.reflection = found'.reflection := Option.some.inj hseen
      have hfunction : (Lookup.ofExcept found.reflection.toFunction).Alike I J id
          (Lookup.ofExcept found'.reflection.toFunction) := by
        rw [hreflection]
        exact Lookup.alike_ofExcept rfl
      apply hfunction.bind
      intro _ _ _
      exact Lookup.alike_pure rfl

theorem alike_hasFunction (hvets : x.vetsDefines = y.vetsDefines)
    (h : ∀ depth, FunctionQuestion.Alike I J (x.hasFunctionAt depth) (y.hasFunctionAt depth)) :
    FunctionQuestion.Alike I J x.hasFunction y.hasFunction := by
  unfold hasFunction
  rw [hvets]
  split
  · exact h maxNesting
  · intro name
    exact Lookup.alike_pure rfl

end Questions

section Bare

variable {r : Reflectors} {files : FileTree} {I J : Session → Prop}

theorem alike_hasFunctionAt_self (hl : r.locator.IsChain) (hI : Setting files I)
    (hJ : Setting files J) (depth : Nat) :
    FunctionQuestion.Alike I J (r.hasFunctionAt depth) (r.hasFunctionAt depth) := by
  intro name
  cases depth with
  | zero => exact Lookup.alike_pure rfl
  | succ depth =>
    apply alike_hasFunctionAt_succ
    exact (hl.readsAlike_self _).alike_locate hI hJ (fun h => by cases h) (.refl _) _ _ _

/-- Without a memo, identifiers that agree and are read alike have one answer over given files,
whatever was looked for before. -/
theorem alike_locate (hl : r.locator.IsChain) (hI : Setting files I) (hJ : Setting files J)
    {a b : Identifier} (h : a.Agrees b) (hread : r.locator.ReadsAlike a b) (asker asker' : Nat) :
    (r.locate asker a).Alike I J seen (r.locate asker' b) :=
  hread.alike_locate hI hJ
    (fun _ => alike_hasFunction rfl (alike_hasFunctionAt_self hl hI hJ)) h _ _ _

theorem foundFresh_congr (hl : r.locator.IsChain) {a b : Identifier} (h : a.Agrees b)
    (hread : r.locator.ReadsAlike a b) : r.foundFresh files a = r.foundFresh files b :=
  (alike_locate hl (.ofFiles files) (.ofFiles files) h hread _ _ _ _ rfl rfl).1

/-- Lookups that ask for the same thing have one answer if they are read alike, which has to be
known of classes and constants only. -/
theorem foundFresh_of_same (hl : r.locator.IsChain) {a b : Kind × String}
    (hsame : (r.identifier a).same (r.identifier b) = true)
    (hread : (r.identifier a).kind ≠ .function →
      ((r.identifier a).kind = .constant → (r.identifier a).folding = (r.identifier b).folding) ∧
        r.locator.ReadsAlike (r.identifier a) (r.identifier b)) :
    r.foundFresh files (r.identifier a) = r.foundFresh files (r.identifier b) := by
  obtain ⟨kind, name⟩ := a
  obtain ⟨other, name'⟩ := b
  obtain ⟨hkind, hkey⟩ := Identifier.same_iff.mp hsame
  obtain rfl : kind = other := hkind
  cases kind with
  | function => exact foundFresh_congr hl ⟨rfl, rfl, hkey⟩ (hl.readsAlike_function _ _ _)
  | classLike =>
    obtain ⟨-, halike⟩ := hread (fun h => by cases h)
    exact foundFresh_congr hl ⟨rfl, rfl, hkey⟩ halike
  | constant =>
    obtain ⟨hfolding, halike⟩ := hread (fun h => by cases h)
    exact foundFresh_congr hl ⟨rfl, hfolding rfl, hkey⟩ halike

/-- The answer for a function depends on the key of its name alone. -/
theorem foundFresh_function (hl : r.locator.IsChain) {a b : String}
    (h : (r.identifier (.function, a)).same (r.identifier (.function, b)) = true) :
    r.foundFresh files (r.identifier (.function, a)) =
      r.foundFresh files (r.identifier (.function, b)) :=
  foundFresh_of_same hl h fun hkind => absurd rfl hkind

theorem answers_eq_map (hl : r.locator.IsChain) (lookups : List (Kind × String)) {s : Session}
    (hs : s.files = files) :
    r.answers lookups s = lookups.map fun lookup =>
      answerOf (r.identifier lookup) (r.foundFresh files (r.identifier lookup)) := by
  induction lookups generalizing s with
  | nil => rfl
  | cons lookup rest ih =>
    obtain ⟨kind, name⟩ := lookup
    obtain ⟨hanswer, hsession⟩ := r.start_reflect kind name s
    obtain ⟨hfound, hfiles, -⟩ := alike_locate hl (.ofFiles files) (.ofFiles files)
      (.refl (r.identifier (kind, name))) (hl.readsAlike_self _) kind.asker kind.asker s
      (.start files) hs rfl
    rw [answers, List.map_cons]
    simp only
    rw [hanswer, hsession, hfound, ih hfiles]
    rfl

end Bare

/-- Under which the memo in a slot keeps what the reflectors find for an identifier. -/
abbrev memoKey (r : Reflectors) (slot : Nat) (id : Identifier) : MemoKey :=
  .located ⟨slot, r.mode, id.kind.asker⟩ id.kind id.key

/-- What the memo remembers for an identifier. -/
def recalled (r : Reflectors) (slot : Nat) (s : Session) (id : Identifier) :
    Option (Option Found) :=
  s.remembered (r.memoKey slot id)

theorem locate_memoized (r : Reflectors) (slot : Nat) (isFunction : FunctionQuestion)
    (id : Identifier) :
    (r.memoized slot).locator.locate isFunction ⟨r.mode, id.kind.asker⟩ id =
      Lookup.remember (r.memoKey slot id)
        (r.locator.locate isFunction ⟨r.mode, id.kind.asker⟩ id) :=
  Locator.locate_memo isFunction ⟨r.mode, id.kind.asker⟩ slot r.locator id

section Recalled

variable {r : Reflectors} {slot : Nat} {s : Session} {a b : Identifier}

theorem recalled_congr (h : a.same b = true) : r.recalled slot s a = r.recalled slot s b := by
  obtain ⟨hkind, hkey⟩ := Identifier.same_iff.mp h
  unfold recalled memoKey
  rw [hkind, hkey]

theorem recalled_store_of_same (h : a.same b = true) (hnone : r.recalled slot s a = none)
    (answer : Option Found) :
    r.recalled slot (s.store (r.memoKey slot a) answer) b = some answer := by
  rw [← recalled_congr h]
  exact Session.remembered_store_self hnone answer

theorem recalled_store_of_not_same (h : a.same b = false) (answer : Option Found) :
    r.recalled slot (s.store (r.memoKey slot a) answer) b = r.recalled slot s b := by
  apply Session.remembered_store_of_ne
  intro heq
  injection heq with _ hkind hkey
  rw [Identifier.same_iff.mpr ⟨hkind.symm, hkey.symm⟩] at h
  cases h

end Recalled

/-- What is found for the first of these identifiers that is the same and does not fail. -/
def firstFound (r : Reflectors) (files : FileTree) (history : List Identifier) (id : Identifier) :
    Option (Option Reflection) :=
  ((history.filter (·.same id)).map (r.foundFresh files)).findSome? Except.toOption

/-- What a memo finds for an identifier after these: what the locator behind it finds for the first
identifier that is the same and does not fail. -/
def foundAfter (r : Reflectors) (files : FileTree) (history : List Identifier) (id : Identifier) :
    Except Error (Option Reflection) :=
  match r.firstFound files history id with
  | some found => .ok found
  | none => r.foundFresh files id

theorem firstFound_snoc_of_same (r : Reflectors) (files : FileTree) (history : List Identifier)
    {a b : Identifier} (h : a.same b = true) :
    r.firstFound files (history ++ [a]) b =
      (r.firstFound files history b).or (r.foundFresh files a).toOption := by
  unfold firstFound
  have hlast : [a].filter (·.same b) = [a] := by simp [h]
  rw [List.filter_append, List.map_append, List.findSome?_append, hlast]
  cases hfound : (r.foundFresh files a).toOption <;> simp [hfound]

theorem firstFound_snoc_of_not_same (r : Reflectors) (files : FileTree)
    (history : List Identifier) {a b : Identifier} (h : a.same b = false) :
    r.firstFound files (history ++ [a]) b = r.firstFound files history b := by
  have hlast : [a].filter (·.same b) = [] := by simp [h]
  unfold firstFound
  rw [List.filter_append, hlast, List.append_nil]

theorem firstFound_congr (r : Reflectors) (files : FileTree) (history : List Identifier)
    {a b : Identifier} (h : a.same b = true) :
    r.firstFound files history a = r.firstFound files history b := by
  obtain ⟨hkind, hkey⟩ := Identifier.same_iff.mp h
  unfold firstFound Identifier.same
  rw [hkind, hkey]

/-- Where all identifiers of a history that are the same are found alike, so is what comes after. -/
theorem foundAfter_eq_foundFresh {r : Reflectors} {files : FileTree} {history : List Identifier}
    {id : Identifier}
    (h : ∀ a ∈ history, a.same id = true → r.foundFresh files a = r.foundFresh files id) :
    r.foundAfter files history id = r.foundFresh files id := by
  unfold foundAfter
  cases hfirst : r.firstFound files history id with
  | none => rfl
  | some found =>
    obtain ⟨answer, hanswer, hok⟩ := List.exists_of_findSome?_eq_some hfirst
    obtain ⟨a, ha, rfl⟩ := List.mem_map.mp hanswer
    obtain ⟨hmem, hsame⟩ := List.mem_filter.mp ha
    rw [h a hmem hsame] at hok
    cases hfresh : r.foundFresh files id with
    | error e =>
      rw [hfresh] at hok
      cases hok
    | ok other =>
      rw [hfresh] at hok
      cases hok
      rfl

/-- What a memo remembers after a history of lookups. Functions may be remembered that were only
asked for on the way; their answers do not depend on the history. -/
structure Remembers (r : Reflectors) (slot : Nat) (files : FileTree) (history : List Identifier)
    (s : Session) : Prop where
  files_eq : s.files = files
  functions : ∀ name answer, r.recalled slot s (r.identifier (.function, name)) = some answer →
    r.foundFresh files (r.identifier (.function, name)) = .ok (seen answer)
  others : ∀ id, id.kind ≠ .function →
    (r.recalled slot s id).map seen = r.firstFound files history id

section Memoized

variable {r : Reflectors} {slot : Nat} {files : FileTree} {history : List Identifier} {s : Session}

theorem setting_remembers : Setting files (r.Remembers slot files history) := by
  constructor
  · intro s hs
    exact hs.files_eq
  · intro s hs
    exact ⟨hs.files_eq, hs.functions, hs.others⟩

/-- A new entry for a function is right for all functions with its key. -/
theorem Remembers.store_function (hl : r.locator.IsChain)
    (hs : r.Remembers slot files history s) {name : String} {answer : Option Found}
    (hanswer : r.foundFresh files (r.identifier (.function, name)) = .ok (seen answer))
    (hnone : r.recalled slot s (r.identifier (.function, name)) = none) :
    r.Remembers slot files history
      (s.store (r.memoKey slot (r.identifier (.function, name))) answer) := by
  constructor
  · exact hs.files_eq
  · intro other found hfound
    cases hsame : (r.identifier (.function, name)).same (r.identifier (.function, other)) with
    | true =>
      rw [recalled_store_of_same hsame hnone] at hfound
      cases hfound
      rw [← hanswer]
      exact (foundFresh_function hl hsame).symm
    | false =>
      rw [recalled_store_of_not_same hsame] at hfound
      exact hs.functions other found hfound
  · intro id hid
    have hsame : (r.identifier (.function, name)).same id = false := by
      rw [Bool.eq_false_iff]
      intro h
      exact hid (Identifier.same_iff.mp h).1.symm
    rw [recalled_store_of_not_same hsame]
    exact hs.others id hid

/-- A memo that has seen some lookups answers for a function as the locator behind it does. -/
theorem alike_locate_function (hl : r.locator.IsChain) (isFunction isFunction' : FunctionQuestion)
    (name : String) :
    ((r.memoized slot).locator.locate isFunction ⟨r.mode, Kind.function.asker⟩
        (r.identifier (.function, name))).Alike (r.Remembers slot files history)
        (fun t => t.files = files) seen
      (r.locator.locate isFunction' ⟨r.mode, Kind.function.asker⟩
        (r.identifier (.function, name))) := by
  intro s t hs ht
  have hnot : ∀ {p : Prop}, (r.identifier (.function, name)).kind = .constant → p := by
    intro p h
    cases h
  have hinner : (r.locator.locate isFunction ⟨r.mode, Kind.function.asker⟩
        (r.identifier (.function, name))).Alike (r.Remembers slot files history)
        (fun t => t.files = files) seen
      (r.locator.locate isFunction' ⟨r.mode, Kind.function.asker⟩
        (r.identifier (.function, name))) :=
    (hl.readsAlike_self _).alike_locate setting_remembers (.ofFiles files) hnot (.refl _) _ _ _
  have hfresh : (r.locate Kind.function.asker (r.identifier (.function, name))).Alike
        (fun t => t.files = files) (fun t => t.files = files) seen
      (r.locator.locate isFunction' ⟨r.mode, Kind.function.asker⟩
        (r.identifier (.function, name))) :=
    (hl.readsAlike_self _).alike_locate (.ofFiles files) (.ofFiles files) hnot (.refl _) _ _ _
  have hbare : r.foundFresh files (r.identifier (.function, name)) =
      ((r.locator.locate isFunction' ⟨r.mode, Kind.function.asker⟩
        (r.identifier (.function, name))).start t).1.map seen :=
    (hfresh (.start files) t rfl ht).1
  obtain ⟨hview, hs', ht'⟩ := hinner s t hs ht
  suffices hmemo :
      (((r.memoized slot).locator.locate isFunction ⟨r.mode, Kind.function.asker⟩
        (r.identifier (.function, name))).start s).1.map seen =
          r.foundFresh files (r.identifier (.function, name)) ∧
      r.Remembers slot files history
        (((r.memoized slot).locator.locate isFunction ⟨r.mode, Kind.function.asker⟩
          (r.identifier (.function, name))).start s).2 by
    exact ⟨hmemo.1.trans hbare, hmemo.2, ht'⟩
  have hremember : (r.memoized slot).locator.locate isFunction ⟨r.mode, Kind.function.asker⟩
      (r.identifier (.function, name)) =
        Lookup.remember (r.memoKey slot (r.identifier (.function, name)))
          (r.locator.locate isFunction ⟨r.mode, Kind.function.asker⟩
            (r.identifier (.function, name))) :=
    locate_memoized r slot isFunction (r.identifier (.function, name))
  rw [hremember]
  cases hk : r.recalled slot s (r.identifier (.function, name)) with
  | some answer =>
    rw [Lookup.remember_of_remembered hk]
    exact ⟨(hs.functions name answer hk).symm, hs⟩
  | none =>
    rcases hask : (r.locator.locate isFunction ⟨r.mode, Kind.function.asker⟩
      (r.identifier (.function, name))).start s with ⟨e | answer, u⟩
    · rw [Lookup.remember_of_failed hk hask]
      rw [hask] at hview hs'
      exact ⟨hview.trans hbare.symm, hs'⟩
    · rw [hask] at hview hs'
      have hanswer : r.foundFresh files (r.identifier (.function, name)) = .ok (seen answer) :=
        hbare.trans hview.symm
      -- Behind the memo the same function may have been asked for, from the text of a constant.
      cases hu : r.recalled slot u (r.identifier (.function, name)) with
      | none =>
        rw [Lookup.remember_of_found hk hask hu]
        exact ⟨hanswer.symm, hs'.store_function hl hanswer hu⟩
      | some other =>
        rw [Lookup.remember_of_overtaken hk hask hu]
        exact ⟨(hs'.functions name other hu).symm, hs'⟩

theorem alike_hasFunctionAt_memoized (hl : r.locator.IsChain) (depth : Nat) :
    FunctionQuestion.Alike (r.Remembers slot files history) (fun t => t.files = files)
      ((r.memoized slot).hasFunctionAt depth) (r.hasFunctionAt depth) := by
  intro name
  cases depth with
  | zero => exact Lookup.alike_pure rfl
  | succ depth =>
    apply alike_hasFunctionAt_succ
    exact alike_locate_function hl _ _ name

/-- A lookup of a function leaves what is remembered right for a history in which it took part. -/
theorem Remembers.snoc_function (hs : r.Remembers slot files history s) {id : Identifier}
    (hid : id.kind = .function) : r.Remembers slot files (history ++ [id]) s := by
  refine ⟨hs.files_eq, hs.functions, fun other hother => ?_⟩
  rw [hs.others other hother, firstFound_snoc_of_not_same]
  rw [Bool.eq_false_iff]
  intro hsame
  exact hother ((Identifier.same_iff.mp hsame).1.symm.trans hid)

/-- After a lookup that is no function's, what is remembered follows the history if it does for the
identifier of the lookup itself. -/
theorem Remembers.snoc_other (hs : r.Remembers slot files history s) {id : Identifier}
    {t : Session} (hfiles : t.files = s.files)
    (hsame : ∀ other, id.same other = true →
      (r.recalled slot t other).map seen = r.firstFound files (history ++ [id]) other)
    (hdiffer : ∀ other, id.same other = false →
      r.recalled slot t other = r.recalled slot s other) (hid : id.kind ≠ .function) :
    r.Remembers slot files (history ++ [id]) t := by
  refine ⟨hfiles.trans hs.files_eq, ?_, ?_⟩
  · intro name answer hanswer
    have hnot : id.same (r.identifier (.function, name)) = false := by
      rw [Bool.eq_false_iff]
      intro h
      exact hid (Identifier.same_iff.mp h).1
    rw [hdiffer _ hnot] at hanswer
    exact hs.functions name answer hanswer
  · intro other hother
    cases h : id.same other with
    | true => exact hsame other h
    | false =>
      rw [hdiffer other h, firstFound_snoc_of_not_same r files history h]
      exact hs.others other hother

/-- One lookup of a class or a constant through the memo. -/
theorem Remembers.locate_other (hl : r.locator.IsChain) (hs : r.Remembers slot files history s)
    {id : Identifier} (hid : id.kind ≠ .function) :
    (((r.memoized slot).locate id.kind.asker id).start s).1.map seen =
        r.foundAfter files history id ∧
      r.Remembers slot files (history ++ [id])
        (((r.memoized slot).locate id.kind.asker id).start s).2 := by
  have hremember : (r.memoized slot).locate id.kind.asker id =
      Lookup.remember (r.memoKey slot id)
        (r.locator.locate (r.memoized slot).hasFunction ⟨r.mode, id.kind.asker⟩ id) :=
    locate_memoized r slot (r.memoized slot).hasFunction id
  have hfirst := hs.others id hid
  rw [hremember]
  cases hk : r.recalled slot s id with
  | some answer =>
    rw [hk] at hfirst
    rw [Lookup.remember_of_remembered hk]
    refine ⟨?_, hs.snoc_other rfl ?_ (fun _ _ => rfl) hid⟩
    · unfold foundAfter
      rw [← hfirst]
      rfl
    · intro other hsame
      rw [firstFound_snoc_of_same r files history hsame, ← recalled_congr hsame, hk,
        ← firstFound_congr r files history hsame, ← hfirst]
      rfl
  | none =>
    rw [hk] at hfirst
    have hafter : r.foundAfter files history id = r.foundFresh files id := by
      unfold foundAfter
      rw [← hfirst]
      rfl
    have hquestion : FunctionQuestion.Alike (r.Remembers slot files history)
        (fun t => t.files = files) (r.memoized slot).hasFunction r.hasFunction :=
      alike_hasFunction rfl (alike_hasFunctionAt_memoized hl)
    have hinner : (r.locator.locate (r.memoized slot).hasFunction ⟨r.mode, id.kind.asker⟩ id).Alike
        (r.Remembers slot files history) (fun t => t.files = files) seen
        (r.locator.locate r.hasFunction ⟨r.mode, id.kind.asker⟩ id) :=
      (hl.readsAlike_self id).alike_locate setting_remembers (.ofFiles files)
        (fun _ => hquestion) (.refl id) _ _ _
    obtain ⟨hview, hs', -⟩ := hinner s (.start files) hs rfl
    change _ = r.foundFresh files id at hview
    rw [hafter]
    rcases hask :
        (r.locator.locate (r.memoized slot).hasFunction ⟨r.mode, id.kind.asker⟩ id).start s
      with ⟨e | answer, u⟩
    · rw [hask] at hview hs'
      rw [Lookup.remember_of_failed hk hask]
      refine ⟨hview, hs'.snoc_other rfl ?_ (fun _ _ => rfl) hid⟩
      intro other hsame
      have hkind : other.kind ≠ .function := by
        rw [← (Identifier.same_iff.mp hsame).1]
        exact hid
      rw [firstFound_snoc_of_same r files history hsame, ← hview]
      exact (hs'.others other hkind).trans (Option.or_none).symm
    · rw [hask] at hview hs'
      -- Behind the memo only functions are asked for, so `id` has not been remembered meanwhile.
      have hu : r.recalled slot u id = none := by
        have hnone := hs'.others id hid
        rw [← hfirst] at hnone
        exact Option.map_eq_none_iff.mp hnone
      rw [Lookup.remember_of_found hk hask hu]
      refine ⟨hview, hs'.snoc_other rfl ?_ ?_ hid⟩
      · intro other hsame
        rw [recalled_store_of_same hsame hu, firstFound_snoc_of_same r files history hsame,
          ← firstFound_congr r files history hsame, ← hfirst, ← hview]
        rfl
      · intro other hsame
        exact recalled_store_of_not_same hsame answer

/-- One lookup through the memo, after others that were made by the same rules. -/
theorem Remembers.locate (hl : r.locator.IsChain) (hs : r.Remembers slot files history s)
    (hhistory : ∀ id ∈ history, ∃ lookup, id = r.identifier lookup) (kind : Kind) (name : String) :
    (((r.memoized slot).locate kind.asker (r.identifier (kind, name))).start s).1.map seen =
        r.foundAfter files history (r.identifier (kind, name)) ∧
      r.Remembers slot files (history ++ [r.identifier (kind, name)])
        (((r.memoized slot).locate kind.asker (r.identifier (kind, name))).start s).2 := by
  by_cases hkind : kind = .function
  · subst hkind
    have hfresh : r.foundAfter files history (r.identifier (.function, name)) =
        r.foundFresh files (r.identifier (.function, name)) := by
      apply foundAfter_eq_foundFresh
      intro a ha hsame
      obtain ⟨⟨kind, other⟩, rfl⟩ := hhistory a ha
      obtain rfl : kind = .function := (Identifier.same_iff.mp hsame).1
      exact foundFresh_function hl hsame
    obtain ⟨hview, hafter, -⟩ := alike_locate_function hl (r.memoized slot).hasFunction
      r.hasFunction name s (.start files) hs rfl
    rw [hfresh]
    exact ⟨hview, hafter.snoc_function rfl⟩
  · have hid : (r.identifier (kind, name)).kind ≠ .function := hkind
    exact hs.locate_other hl hid

/-- By induction on the lookups, from any session that remembers a history of such lookups. -/
theorem Remembers.answers_eq (hl : r.locator.IsChain) (hs : r.Remembers slot files history s)
    (hhistory : ∀ id ∈ history, ∃ lookup, id = r.identifier lookup)
    (lookups : List (Kind × String)) :
    (r.memoized slot).answers lookups s = lookups.mapIdx fun i lookup =>
      answerOf (r.identifier lookup)
        (r.foundAfter files (history ++ (lookups.take i).map r.identifier)
          (r.identifier lookup)) := by
  induction lookups generalizing history s with
  | nil => rfl
  | cons lookup rest ih =>
    obtain ⟨kind, name⟩ := lookup
    obtain ⟨hanswer, hsession⟩ := (r.memoized slot).start_reflect kind name s
    obtain ⟨hfound, hafter⟩ := hs.locate hl hhistory kind name
    have hsnoc : ∀ id ∈ history ++ [r.identifier (kind, name)], ∃ lookup,
        id = r.identifier lookup := by
      intro id hid
      rcases List.mem_append.mp hid with hid | hid
      · exact hhistory id hid
      · exact ⟨(kind, name), List.mem_singleton.mp hid⟩
    have hrest := ih hafter hsnoc
    rw [answers, List.mapIdx_cons]
    simp only
    rw [hanswer, hsession]
    congr 1
    · rw [List.take_zero, List.map_nil, List.append_nil, ← hfound]
      rfl
    · refine hrest.trans ?_
      simp only [List.take_succ_cons, List.map_cons, List.append_assoc, List.cons_append,
        List.nil_append]

end Memoized

/-- Without a memo, the answers of lookups over given files do not depend on what was looked for
before. With one, each answer is what is found for the first of the lookups so far that asks for the
same thing and does not fail. So the memo cannot be seen where lookups of classes and constants that
ask for the same thing are read alike; lookups of functions always are, and by the standard rules
those of constants as well, unless a name has a second leading backslash. -/
theorem memoized_answers (r : Reflectors) (hl : r.locator.IsChain) (files : FileTree) (slot : Nat)
    (lookups : List (Kind × String)) :
    (r.answers lookups (.start files) = lookups.map fun lookup =>
      answerOf (r.identifier lookup) (r.foundFresh files (r.identifier lookup))) ∧
    ((r.memoized slot).answers lookups (.start files) = lookups.mapIdx fun i lookup =>
      answerOf (r.identifier lookup)
        (r.foundAfter files ((lookups.take i).map r.identifier) (r.identifier lookup))) ∧
    ((∀ a ∈ lookups.map r.identifier, ∀ b ∈ lookups.map r.identifier, a.kind ≠ .function →
        a.same b = true → (a.kind = .constant → a.folding = b.folding) ∧
          r.locator.ReadsAlike a b) →
      (r.memoized slot).answers lookups (.start files) = r.answers lookups (.start files)) ∧
    (r.rules = .standard →
      (∀ lookup ∈ lookups, lookup.1 = .constant →
        Name.stripRoot lookup.2 = Name.stripRoots lookup.2) →
      (∀ a ∈ lookups.map r.identifier, ∀ b ∈ lookups.map r.identifier, a.kind = .classLike →
        a.same b = true → r.locator.ReadsAlike a b) →
      (r.memoized slot).answers lookups (.start files) = r.answers lookups (.start files)) := by
  have hstart : r.Remembers slot files [] (.start files) := by
    constructor
    · rfl
    · intro name answer h
      cases h
    · intro id _
      rfl
  have hbare := answers_eq_map hl lookups (s := .start files) rfl
  have hmemoized := hstart.answers_eq hl (by simp) lookups
  simp only [List.nil_append] at hmemoized
  have hunseen : (∀ a ∈ lookups.map r.identifier, ∀ b ∈ lookups.map r.identifier,
      a.kind ≠ .function → a.same b = true →
        (a.kind = .constant → a.folding = b.folding) ∧ r.locator.ReadsAlike a b) →
      (r.memoized slot).answers lookups (.start files) = r.answers lookups (.start files) := by
    intro halike
    rw [hbare, hmemoized]
    apply List.ext_getElem
    · simp
    intro i hi _
    have hlength : i < lookups.length := by simpa using hi
    rw [List.getElem_mapIdx, List.getElem_map]
    congr 1
    apply foundAfter_eq_foundFresh
    intro a ha hsame
    obtain ⟨earlier, hearlier, rfl⟩ := List.mem_map.mp ha
    have hmem : earlier ∈ lookups := List.mem_of_mem_take hearlier
    have hlast : lookups[i] ∈ lookups := List.getElem_mem hlength
    apply foundFresh_of_same hl hsame
    intro hfunction
    exact halike _ (List.mem_map_of_mem hmem) _ (List.mem_map_of_mem hlast) hfunction hsame
  refine ⟨hbare, hmemoized, hunseen, ?_⟩
  intro hrules hroots hclasses
  apply hunseen
  intro a ha b hb hkind hsame
  cases hk : a.kind with
  | function => exact absurd hk hkind
  | classLike =>
    refine ⟨fun h => ?_, hclasses a ha b hb hk hsame⟩
    cases h
  | constant =>
    obtain ⟨⟨kind, name⟩, hmem, rfl⟩ := List.mem_map.mp ha
    obtain ⟨⟨kind', name'⟩, hmem', rfl⟩ := List.mem_map.mp hb
    obtain ⟨hkinds, hkeys⟩ := Identifier.same_iff.mp hsame
    obtain rfl : kind = .constant := hk
    obtain rfl : .constant = kind' := hkinds
    unfold identifier at hkeys ⊢
    rw [hrules] at hkeys ⊢
    obtain ⟨hfolding, hread⟩ :=
      hl.readsAlike_constant (hroots _ hmem rfl) (hroots _ hmem' rfl) hkeys
    exact ⟨fun _ => hfolding, hread⟩

/-- A directory with the file of one class. -/
def oneClassFiles : FileTree :=
  ⟨[(["src"], .directory),
    (["src", "Foo.php"], .file (some "<?php namespace App; class Foo \x7b\x7d"))], []⟩

/-- Reflectors over a mapping of a prefix to that directory. -/
def oneClassReflectors : Reflectors :=
  ⟨.psr4 (.ofPairs [("App", ["src"])]), .compiled, .standard, true⟩

/-- Lookups that are repeated as they were spelled, and a function whose spelling changes. -/
def repeatedLookups : List (Kind × String) :=
  [(.classLike, "App\\Foo"), (.function, "App\\f"), (.classLike, "App\\Foo"), (.function, "APP\\F")]

/-- A class that is looked for once more, and a constant whose namespace changes its spelling. -/
def respelledLookups : List (Kind × String) :=
  [(.classLike, "App\\Foo"), (.constant, "\\App\\C"), (.classLike, "App\\Foo"),
    (.constant, "APP\\C")]

theorem memoized_answers_repeatedLookups :
    oneClassReflectors.locator.IsChain ∧
      (oneClassReflectors.memoized 0).answers repeatedLookups (.start oneClassFiles) =
        oneClassReflectors.answers repeatedLookups (.start oneClassFiles) ∧
      (oneClassReflectors.memoized 0).answers respelledLookups (.start oneClassFiles) =
        oneClassReflectors.answers respelledLookups (.start oneClassFiles) ∧
      (oneClassReflectors.answers repeatedLookups (.start oneClassFiles)).map
        (·.toOption.isSome) = [true, false, true, false] := by
  have hl : oneClassReflectors.locator.IsChain := .psr4 _
  have hspelled : ∀ a ∈ repeatedLookups.map oneClassReflectors.identifier,
      ∀ b ∈ repeatedLookups.map oneClassReflectors.identifier, a.kind ≠ .function →
        a.same b = true → a = b := by
    decide +kernel
  have hclasses : ∀ a ∈ respelledLookups.map oneClassReflectors.identifier,
      ∀ b ∈ respelledLookups.map oneClassReflectors.identifier, a.kind = .classLike →
        a.same b = true → a = b := by
    decide +kernel
  refine ⟨hl, ?_, ?_, by decide +kernel⟩
  · apply (memoized_answers oneClassReflectors hl oneClassFiles 0 repeatedLookups).2.2.1
    intro a ha b hb hkind hsame
    obtain rfl := hspelled a ha b hb hkind hsame
    exact ⟨fun _ => rfl, hl.readsAlike_self a⟩
  · apply (memoized_answers oneClassReflectors hl oneClassFiles 0 respelledLookups).2.2.2 rfl
    · decide +kernel
    · intro a ha b hb hkind hsame
      obtain rfl := hclasses a ha b hb hkind hsame
      exact hl.readsAlike_self a

/-- A class that was looked for in small letters, in vain, is not found under its own spelling any
more. -/
theorem memo_visible_of_spelling :
    ¬ ∀ (r : Reflectors) (files : FileTree) (slot : Nat) (lookups : List (Kind × String)),
      r.locator.IsChain →
        (r.memoized slot).answers lookups (.start files) = r.answers lookups (.start files) := by
  intro h
  have hsame := congrArg (List.map (·.toOption.isSome))
    (h oneClassReflectors oneClassFiles 0 [(.classLike, "app\\foo"), (.classLike, "App\\Foo")]
      (.psr4 _))
  revert hsame
  decide +kernel

end Reflectors

end StaticReflection
