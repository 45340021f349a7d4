import StaticReflection.Proofs.AlikeLookups
import StaticReflection.Proofs.MemoHistory
import StaticReflection.Reflector

/-!
Answers that are given again. What a lookup answers may depend on what memos remember of earlier
ones. But once it has answered, it answers the same in every later session over the same files:
memos forget nothing, and what stands behind them is asked in the same way as before. So a reference
that was followed once leads to the same value whenever it is followed again.
-/

namespace StaticReflection

open Syntax

/-- A session that comes later: the files are the same, and what was remembered still is. -/
structure Session.Extends (s t : Session) : Prop where
  files_eq : t.files = s.files
  remembered : ∀ k answer, s.remembered k = some answer → t.remembered k = some answer

namespace Session.Extends

variable {s t u : Session}

theorem refl (s : Session) : s.Extends s := ⟨rfl, fun _ _ h => h⟩

theorem trans (h : s.Extends t) (h' : t.Extends u) : s.Extends u :=
  ⟨h'.files_eq.trans h.files_eq,
    fun k answer ha => h'.remembered k answer (h.remembered k answer ha)⟩

theorem store (s : Session) (k : MemoKey) (answer : k.Answer) : s.Extends (s.store k answer) := by
  refine ⟨by cases k <;> rfl, fun other old hold => ?_⟩
  by_cases hkey : other = k
  · subst hkey
    rw [Session.store_of_remembered hold]
    exact hold
  · rw [Session.remembered_store_of_ne s hkey]
    exact hold

end Session.Extends

namespace Lookup

variable {α β γ δ : Type}

/-- The second lookup answers again what the first has answered, to the eye, in any session that
comes after that; and both lead to later sessions. -/
def Repeats (view : α → β) (l l' : Lookup α) : Prop :=
  (∀ s : Session, s.Extends (l.start s).2) ∧
    ∀ s a, (l.start s).1 = .ok a → ∀ t, (l.start s).2.Extends t →
      ∃ a', (l'.start t).1 = .ok a' ∧ view a' = view a ∧ t.Extends (l'.start t).2

theorem repeats_pure {view : α → β} {a a' : α} (h : view a' = view a) :
    (pure a : Lookup α).Repeats view (pure a') := by
  refine ⟨fun s => .refl s, fun s b hb t _ => ?_⟩
  cases hb
  exact ⟨a', rfl, h, .refl t⟩

theorem repeats_throw (view : α → β) (e : Error) (l : Lookup α) :
    (throw e : Lookup α).Repeats view l := by
  refine ⟨fun s => .refl s, fun s b hb t _ => ?_⟩
  cases hb

theorem repeats_ofFiles (view : α → β) (read : FileTree → Except Error α) :
    (ofFiles read).Repeats view (ofFiles read) := by
  refine ⟨fun s => ?_, fun s a ha t ht => ?_⟩
  · rw [start_ofFiles]
    exact .refl s
  · rw [start_ofFiles] at ha ht ⊢
    rw [ht.files_eq]
    exact ⟨a, ha, rfl, .refl t⟩

theorem repeats_ofExcept (view : α → β) (r : Except Error α) :
    (ofExcept r).Repeats view (ofExcept r) := repeats_ofFiles view fun _ => r

/-- First parts that answer again may be followed by second parts that do so for all answers that
look the same. -/
theorem Repeats.bind {view : α → β} {view' : γ → δ} {l l' : Lookup α} {next next' : α → Lookup γ}
    (h : l.Repeats view l')
    (hnext : ∀ a a', view a' = view a → (next a).Repeats view' (next' a')) :
    (l >>= next).Repeats view' (l' >>= next') := by
  refine ⟨fun s => ?_, fun s c hc t ht => ?_⟩
  · have hfirst := h.1 s
    rw [start_bind]
    rcases hl : l.start s with ⟨e | a, u⟩ <;> rw [hl] at hfirst
    · exact hfirst
    · exact hfirst.trans ((hnext a a rfl).1 u)
  · obtain ⟨a, u, hl, hn⟩ := start_bind_eq_ok.mp (Prod.ext hc rfl)
    have hu := (hnext a a rfl).1 u
    rw [hn] at hu
    obtain ⟨a', ha', hview, hlater⟩ := h.2 s a (by rw [hl]) t (by rw [hl]; exact hu.trans ht)
    obtain ⟨c', hc', hview', hlast⟩ := (hnext a a' hview).2 u c (by rw [hn])
      (l'.start t).2 (by rw [hn]; exact ht.trans hlater)
    have hwhole : (l' >>= next').start t = (next' a').start (l'.start t).2 := by
      rw [start_bind]
      rcases hl' : l'.start t with ⟨r, u'⟩
      rw [hl'] at ha'
      cases ha'
      rfl
    rw [hwhole]
    exact ⟨c', hc', hview', hlater.trans hlast⟩

/-- A choice that depends on the files is made again. -/
theorem repeats_ifFiles {view : α → β} (choose : FileTree → Bool) {l l' m m' : Lookup α}
    (h : l.Repeats view l') (hm : m.Repeats view m') :
    (do if choose (← get).files then l else m : Lookup α).Repeats view
      (do if choose (← get).files then l' else m') := by
  have hstart : ∀ (x y : Lookup α) (s : Session),
      (do if choose (← get).files then x else y : Lookup α).start s =
        if choose s.files = true then x.start s else y.start s := by
    intro x y s
    rw [start_bind, start_get]
    dsimp only
    split <;> rfl
  refine ⟨fun s => ?_, fun s a ha t ht => ?_⟩
  · rw [hstart]
    split
    · exact h.1 s
    · exact hm.1 s
  · rw [hstart] at ha ht ⊢
    have hfiles : t.files = s.files := by
      split at ht
      · exact ((h.1 s).trans ht).files_eq
      · exact ((hm.1 s).trans ht).files_eq
    rw [hfiles]
    split at ha
    · rename_i hchoice
      rw [if_pos hchoice] at ht ⊢
      exact h.2 s a ha t ht
    · rename_i hchoice
      rw [if_neg hchoice] at ht ⊢
      exact hm.2 s a ha t ht

/-- The first of two lookups that finds something. -/
theorem Repeats.or {l l' next next' : Lookup (Option Found)} (h : l.Repeats seen l')
    (hnext : next.Repeats seen next') :
    (do
      match ← l with
      | some found => return some found
      | none => next : Lookup (Option Found)).Repeats seen
    (do
      match ← l' with
      | some found => return some found
      | none => next') := by
  apply h.bind
  intro found found' hseen
  cases found with
  | none =>
    cases found' with
    | none => exact hnext
    | some _ => cases hseen
  | some _ =>
    cases found' with
    | none => cases hseen
    | some _ => exact repeats_pure hseen

/-- What a memo has answered it answers again, whatever the locator behind it does: that it has
answered is remembered. -/
theorem repeats_remember {view : Option Found → β} {place : MemoPlace} {kind : Kind} {name : String}
    {ask ask' : Lookup (Option Found)} (h : ∀ s : Session, s.Extends (ask.start s).2) :
    (remember (.located place kind name) ask).Repeats view
      (remember (.located place kind name) ask') := by
  have hgrows : ∀ s : Session,
      s.Extends ((remember (.located place kind name) ask).start s).2 := fun s =>
    after_remember (.refl s) (h s) fun t answer ht => ht.trans (.store t _ answer)
  -- Whether it was remembered before, stored now or stored by someone else meanwhile: what was
  -- answered is what is remembered.
  have hkept : ∀ s a, ((remember (.located place kind name) ask).start s).1 = .ok a →
      ((remember (.located place kind name) ask).start s).2.remembered (.located place kind name) =
        some a := by
    intro s a ha
    cases hk : s.remembered (.located place kind name) with
    | some answer =>
      rw [remember_of_remembered hk] at ha ⊢
      cases ha
      exact hk
    | none =>
      rcases hask : ask.start s with ⟨e | answer, t⟩
      · rw [remember_of_failed hk hask] at ha
        cases ha
      · cases ht : t.remembered (.located place kind name) with
        | none =>
          rw [remember_of_found hk hask ht] at ha ⊢
          cases ha
          exact Session.remembered_store_self ht _
        | some other =>
          rw [remember_of_overtaken hk hask ht] at ha ⊢
          cases ha
          exact ht
  refine ⟨hgrows, fun s a ha t ht => ?_⟩
  have hlater := ht.remembered _ _ (hkept s a ha)
  rw [remember_of_remembered hlater]
  exact ⟨a, rfl, rfl, .refl t⟩

theorem repeats_countCall (counter : Nat) :
    (countCall counter).Repeats id (countCall counter) := by
  have hgrows : ∀ s : Session, s.Extends ((countCall counter).start s).2 := fun s =>
    ⟨rfl, fun k answer h => by cases k <;> exact h⟩
  exact ⟨hgrows, fun s a ha t ht => ⟨(), rfl, rfl, hgrows t⟩⟩

end Lookup

/-- A question about functions that is answered the same when it is put again. -/
def FunctionQuestion.Repeats (isFunction : FunctionQuestion) : Prop :=
  ∀ name, Lookup.Repeats id (isFunction name) (isFunction name)

section Sources

variable {isFunction : FunctionQuestion} {mode : BuildMode}

theorem Declaration.repeats_reflect (f : FileScope) (mode : BuildMode) (d : Declaration) :
    (some <$> d.reflect f mode : Lookup (Option Found)).Repeats seen
      (some <$> d.reflect f mode) := by
  have hhandOut : ∀ s : Session, s.Extends { s with nextInstance := s.nextInstance + 1 } := fun s =>
    ⟨rfl, fun k answer h => by cases k <;> exact h⟩
  refine ⟨fun s => ?_, fun s a ha t ht => ?_⟩
  · rw [Lookup.start_map, start_reflect]
    cases buildReflection f d mode with
    | error e => exact .refl s
    | ok r => exact hhandOut s
  · rw [Lookup.start_map, start_reflect] at ha ⊢
    cases hbuild : buildReflection f d mode with
    | error e =>
      rw [hbuild] at ha
      cases ha
    | ok r =>
      rw [hbuild] at ha
      cases ha
      exact ⟨some ⟨t.nextInstance, r⟩, rfl, rfl, hhandOut t⟩

theorem Declaration.repeats_isShadowed (hq : isFunction.Repeats) (d : Declaration) :
    (d.isShadowed isFunction).Repeats id (d.isShadowed isFunction) := by
  unfold isShadowed
  cases d.rivalDefine? with
  | none => exact Lookup.repeats_pure rfl
  | some name => exact hq name

theorem repeats_findDeclared (hq : isFunction.Repeats) (f : FileScope) (mode : BuildMode)
    (ds : List Declaration) :
    (findDeclared isFunction f mode ds).Repeats seen (findDeclared isFunction f mode ds) := by
  induction ds with
  | nil => exact Lookup.repeats_pure rfl
  | cons d rest ih =>
    apply (d.repeats_isShadowed hq).bind
    intro shadowed shadowed' hshadowed
    obtain rfl : shadowed' = shadowed := hshadowed
    cases shadowed' with
    | true => exact ih
    | false => exact d.repeats_reflect f mode

theorem Source.repeats_find (hq : isFunction.Repeats) (source : Source) (a : Identifier) :
    (source.find isFunction mode a).Repeats seen (source.find isFunction mode a) := by
  apply (Lookup.repeats_ofExcept id source.program).bind
  intro p p' hp
  obtain rfl : p' = p := hp
  exact repeats_findDeclared hq _ mode _

theorem Source.repeats_findClosure (source : Source) (line : Nat) :
    (source.findClosure mode line).Repeats seen (source.findClosure mode line) := by
  apply (Lookup.repeats_ofExcept id source.program).bind
  intro p p' hp
  obtain rfl : p' = p := hp
  split
  · exact Lookup.repeats_pure rfl
  · exact Declaration.repeats_reflect _ mode _
  · exact Lookup.repeats_throw seen _ _

theorem repeats_readUser (path : String) :
    (readUser path).Repeats id (readUser path) := by
  apply (Lookup.repeats_ofFiles id (·.readSource path)).bind
  intro text text' htext
  obtain rfl : text' = text := htext
  exact Lookup.repeats_pure rfl

theorem repeats_findInFile (hq : isFunction.Repeats) (path : String) (a : Identifier) :
    (findInFile isFunction mode path a).Repeats seen (findInFile isFunction mode path a) := by
  apply (repeats_readUser path).bind
  intro source source' hsource
  obtain rfl : source' = source := hsource
  exact source'.repeats_find hq a

theorem repeats_findInFiles (hq : isFunction.Repeats) (a : Identifier) (paths : List String) :
    (findInFiles isFunction mode a paths).Repeats seen (findInFiles isFunction mode a paths) := by
  induction paths with
  | nil => exact Lookup.repeats_pure rfl
  | cons path rest ih =>
    exact Lookup.repeats_ifFiles (·.isFile path) ((repeats_findInFile hq path a).or ih) ih

theorem repeats_closureInFile (file : String) (line : Nat) :
    (closureInFile mode file line).Repeats seen (closureInFile mode file line) := by
  unfold closureInFile
  split
  · exact Lookup.repeats_throw seen _ _
  · apply (Lookup.repeats_ofFiles id (·.requireFile file)).bind
    intro _ _ _
    apply (repeats_readUser file).bind
    intro source source' hsource
    obtain rfl : source' = source := hsource
    exact source'.repeats_findClosure line

theorem repeats_findAutoloaded (hq : isFunction.Repeats) (file? : String → Option String)
    (a : Identifier) :
    (findAutoloaded isFunction mode file? a).Repeats seen
      (findAutoloaded isFunction mode file? a) := by
  unfold findAutoloaded
  split
  · exact Lookup.repeats_pure rfl
  · exact Lookup.repeats_ifFiles (·.isFile _) (repeats_findInFile hq _ a)
      (Lookup.repeats_throw seen _ _)

theorem repeats_findInStub (hq : isFunction.Repeats) (a : Identifier) (stub : Option Stub) :
    (findInStub isFunction mode a stub).Repeats seen (findInStub isFunction mode a stub) := by
  rcases stub with _ | ⟨text, _ | name, file⟩
  · exact Lookup.repeats_pure rfl
  · exact Lookup.repeats_pure rfl
  · exact Source.repeats_find hq _ a

end Sources

namespace Locator

variable {isFunction : FunctionQuestion} {q : Inquiry}

mutual

/-- What a locator has found for an identifier it finds again. -/
theorem repeats_locate (hq : isFunction.Repeats) (l : Locator) (a : Identifier) :
    (l.locate isFunction q a).Repeats seen (l.locate isFunction q a) := by
  cases l with
  | text source =>
    rw [locate]
    exact Source.repeats_find hq _ a
  | file path =>
    rw [locate]
    exact repeats_findInFile hq path a
  | psr4 mapping =>
    rw [locate]
    exact repeats_findInFiles hq a _
  | classMap map =>
    rw [locate]
    split
    · split
      · exact repeats_findInFile hq _ a
      · exact Lookup.repeats_pure rfl
    · exact Lookup.repeats_pure rfl
  | autoload file? =>
    rw [locate]
    split
    · exact repeats_findAutoloaded hq file? a
    · exact Lookup.repeats_pure rfl
  | evaled text? =>
    rw [locate]
    split
    · exact Source.repeats_find hq _ a
    · exact Lookup.repeats_pure rfl
  | closure path line =>
    rw [locate]
    split
    · exact repeats_closureInFile path line
    · exact Lookup.repeats_pure rfl
  | builtIn stubs =>
    rw [locate]
    exact repeats_findInStub hq a _
  | memo slot inner =>
    rw [locate_memo]
    exact Lookup.repeats_remember (repeats_locate hq inner a).1
  | counting counter inner =>
    rw [locate]
    apply (Lookup.repeats_countCall counter).bind
    intro _ _ _
    exact repeats_locate hq inner a
  | pinned fixed inner =>
    rw [locate]
    exact repeats_locate hq inner fixed
  | firstOf parts =>
    rw [locate]
    exact repeats_locateFirst hq parts a

theorem repeats_locateFirst (hq : isFunction.Repeats) (parts : List Locator) (a : Identifier) :
    (locateFirst isFunction q parts a).Repeats seen (locateFirst isFunction q parts a) := by
  cases parts with
  | nil =>
    rw [locateFirst]
    exact Lookup.repeats_pure rfl
  | cons part rest =>
    rw [locateFirst]
    exact (repeats_locate hq part a).or (repeats_locateFirst hq rest a)

end

end Locator

namespace Reflectors

variable (r : Reflectors)

theorem repeats_hasFunctionAt (depth : Nat) : FunctionQuestion.Repeats (r.hasFunctionAt depth) := by
  induction depth with
  | zero =>
    intro name
    exact Lookup.repeats_pure rfl
  | succ depth ih =>
    intro name
    apply (r.locator.repeats_locate ih _).bind
    intro found found' hseen
    cases found with
    | none =>
      cases found' with
      | none => exact Lookup.repeats_pure rfl
      | some _ => cases hseen
    | some found =>
      cases found' with
      | none => cases hseen
      | some found' =>
        have hsame : found'.reflection = found.reflection := Option.some.inj hseen
        simp only [hsame]
        apply (Lookup.repeats_ofExcept id found.reflection.toFunction).bind
        intro _ _ _
        exact Lookup.repeats_pure rfl

theorem repeats_hasFunction : FunctionQuestion.Repeats r.hasFunction := by
  unfold hasFunction
  split
  · exact r.repeats_hasFunctionAt maxNesting
  · intro name
    exact Lookup.repeats_pure rfl

/-- What was reflected once is reflected again. -/
theorem repeats_reflect (kind : Kind) (name : String) :
    (r.reflect kind name).Repeats (·.reflection) (r.reflect kind name) := by
  apply (r.locator.repeats_locate r.repeats_hasFunction (.make r.rules kind name)).bind
  intro found found' hseen
  cases found with
  | none =>
    cases found' with
    | none => exact Lookup.repeats_throw _ _ _
    | some _ => cases hseen
  | some found =>
    cases found' with
    | none => cases hseen
    | some found' =>
      have hsame : found'.reflection = found.reflection := Option.some.inj hseen
      simp only [ofKind, hsame]
      split
      · exact Lookup.repeats_pure hsame
      · exact Lookup.repeats_throw _ _ _

/-- What is read off a reflection is read off it again. -/
theorem repeats_reflectAs {α : Type} (read : Reflection → Except Error α) (kind : Kind)
    (name : String) :
    (do Lookup.ofExcept (read (← r.reflect kind name).reflection) : Lookup α).Repeats id
      (do Lookup.ofExcept (read (← r.reflect kind name).reflection)) := by
  apply (r.repeats_reflect kind name).bind
  intro found found' hsame
  rw [hsame]
  exact Lookup.repeats_ofExcept id _

theorem repeats_constantValue (name : String) :
    (r.constantValue name).Repeats id (r.constantValue name) := by
  apply (r.repeats_reflectAs Reflection.toConstant .constant name).bind
  intro c c' hc
  obtain rfl : c' = c := hc
  exact Lookup.repeats_pure rfl

theorem repeats_classConstantValue (scope name : String) :
    (r.classConstantValue scope name).Repeats id (r.classConstantValue scope name) := by
  apply (r.repeats_reflectAs Reflection.toClass .classLike scope).bind
  intro c c' hc
  obtain rfl : c' = c := hc
  split
  · exact Lookup.repeats_pure rfl
  · exact Lookup.repeats_throw id _ _

end Reflectors

end StaticReflection
