import StaticReflection.Proofs.MemoTransparency
import StaticReflection.Proofs.Outcomes

/-!
Reflectors give what was asked for. Locators that look for declarations by their names find one of
the kind and the name asked for, or say that there is none. A memo is asked under the key of a name,
so what it remembers fits every name with that key: this is the invariant that all lookups keep, in
whatever order they are made and however the files change between them. It does not matter how often
the names of earlier lookups are rooted, though a name with two leading backslashes is compared by
other rules than its key shows.
-/

namespace StaticReflection

open Syntax

/-- An identifier that is rooted at most once accepts whatever another one with the same key does,
since the key tells how names are compared with it. -/
theorem Identifier.accepts_of_key_eq {names : List String} {kind : Kind} {a b declared : String}
    (hb : Name.stripRoot b = Name.stripRoots b)
    (hkey : (make (.ofList names) kind a).key = (make (.ofList names) kind b).key)
    (h : (make (.ofList names) kind a).accepts declared = true) :
    (make (.ofList names) kind b).accepts declared = true := by
  have hform : (make (.ofList names) kind a).folding.apply declared =
      (make (.ofList names) kind b).key := by
    rw [← hkey]
    exact eq_of_beq h
  suffices hsame : (make (.ofList names) kind b).folding.apply declared =
      (make (.ofList names) kind b).key by
    exact beq_of_eq hsame
  cases hfolding : (make (.ofList names) kind b).folding with
  | whole =>
    have hlower := congrArg Name.lower hform
    unfold key at hlower ⊢
    rw [Folding.lower_apply, Folding.lower_apply] at hlower
    rw [hfolding]
    exact hlower
  | namespaceOnly =>
    suffices hother : (make (.ofList names) kind a).folding = .namespaceOnly by
      rw [← hother]
      exact hform
    cases hwhole : (make (.ofList names) kind a).folding with
    | namespaceOnly => rfl
    | whole =>
      -- The rules list `a`, so it has no second leading backslash, and they list `b` as well.
      have hlisted : ∀ name, (make (.ofList names) kind name).folding = .whole ↔
          kind ≠ .constant ∨
            Name.lower (Name.stripRoot name) ∈ (NameRules.ofList names).caseless := by
        intro name
        cases kind <;> simp [make, NameRules.folding]
      have hlower := congrArg Name.lower hkey
      unfold key at hlower
      rw [Folding.lower_apply, Folding.lower_apply] at hlower
      unfold make at hlower
      simp only [Name.stripRoots_stripRoot] at hlower
      have ha := (hlisted a).mp hwhole
      have hnot : ¬ (make (.ofList names) kind b).folding = .whole := by
        rw [hfolding]
        simp
      refine absurd ((hlisted b).mpr (ha.imp_right fun hmem => ?_)) hnot
      obtain ⟨name, hname⟩ := NameRules.exists_of_mem_ofList hmem
      have hroots : Name.lower (Name.stripRoot a) = Name.lower (Name.stripRoots a) := by
        rw [← Name.stripRoots_stripRoot a, Name.lower_stripRoots, hname, Name.lower_stripRoots,
          Name.stripRoots_stripRoots]
      rwa [hb, ← hlower, ← hroots]

/-- An instance that fits some name with this key. -/
def Found.FitsKey (rules : NameRules) (mode : BuildMode) (kind : Kind) (key : String)
    (found : Found) : Prop :=
  ∃ name, (Identifier.make rules kind name).key = key ∧
    found.reflection.Fits mode (.make rules kind name)

/-- What memos remember for the three reflectors fits the keys under which it is kept. -/
def Session.Sound (rules : NameRules) (s : Session) : Prop :=
  ∀ slot mode (asker kind : Kind) key found,
    s.remembered (.located ⟨slot, mode, asker.asker⟩ kind key) = some (some found) →
      found.FitsKey rules mode kind key

/-- One of the three reflectors asks. -/
def Inquiry.IsOwn (q : Inquiry) : Prop := ∃ kind : Kind, q.asker = kind.asker

namespace Session

variable {rules : NameRules} {s : Session}

theorem sound_start (rules : NameRules) (files : FileTree) : (start files).Sound rules := by
  intro slot mode asker kind key found h
  rw [remembered_start] at h
  cases h

theorem keptByInstances_sound (rules : NameRules) : KeptByInstances (Sound rules) := fun _ hs => hs

theorem Sound.fitsKey (hs : s.Sound rules) {slot : Nat} {q : Inquiry} (hq : q.IsOwn) {kind : Kind}
    {key : String} {found : Found}
    (h : s.remembered (.located ⟨slot, q.mode, q.asker⟩ kind key) = some (some found)) :
    found.FitsKey rules q.mode kind key := by
  obtain ⟨asker, hasker⟩ := hq
  rw [hasker] at h
  exact hs slot q.mode asker kind key found h

/-- What is remembered for others does not matter. -/
theorem Sound.store (hs : s.Sound rules) {slot : Nat} {q : Inquiry} {kind : Kind} {key : String}
    {answer : Option Found}
    (h : q.IsOwn → ∀ found ∈ answer, found.FitsKey rules q.mode kind key) :
    (s.store (.located ⟨slot, q.mode, q.asker⟩ kind key) answer).Sound rules := by
  intro slot' mode asker kind' key' found hfound
  cases hold : s.remembered (.located ⟨slot, q.mode, q.asker⟩ kind key) with
  | some old =>
    rw [store_of_remembered hold] at hfound
    exact hs slot' mode asker kind' key' found hfound
  | none =>
    by_cases hkey : MemoKey.located ⟨slot', mode, asker.asker⟩ kind' key' =
        .located ⟨slot, q.mode, q.asker⟩ kind key
    · injection hkey with hplace hkind hname
      injection hplace with hslot hmode hasker
      subst hslot hkind hname
      rw [hasker, hmode, remembered_store_self hold] at hfound
      cases hfound
      rw [hmode]
      exact h ⟨asker, hasker.symm⟩ found rfl
    · rw [remembered_store_of_ne s hkey] at hfound
      exact hs slot' mode asker kind' key' found hfound

end Session

namespace Locator

/-- Locators that look for declarations by their names: all but those that give a closure on a line
or ask for one fixed identifier. Directories are searched as the files below them, one after the
other. -/
inductive SearchesByName : Locator → Prop where
  | text (source : String) : SearchesByName (.text source)
  | file (path : String) : SearchesByName (.file path)
  | psr4 (mapping : Psr4Mapping) : SearchesByName (.psr4 mapping)
  | classMap (map : ClassMap) : SearchesByName (.classMap map)
  | autoload (file? : String → Option String) : SearchesByName (.autoload file?)
  | evaled (text? : Identifier → Option String) : SearchesByName (.evaled text?)
  | builtIn (stubs : Stubber) : SearchesByName (.builtIn stubs)
  | memo (slot : Nat) {inner : Locator} (h : SearchesByName inner) :
    SearchesByName (.memo slot inner)
  | counting (counter : Nat) {inner : Locator} (h : SearchesByName inner) :
    SearchesByName (.counting counter inner)
  | firstOf {parts : List Locator} (h : ∀ part ∈ parts, SearchesByName part) :
    SearchesByName (.firstOf parts)

variable {rules : NameRules} {isFunction : FunctionQuestion} {q : Inquiry} {id : Identifier}

/-- What a locator finds, as far as it is one of the three reflectors that asks. -/
abbrev FitsAsked (rules : NameRules) (q : Inquiry) (id : Identifier) (found : Option Found) :
    Prop :=
  q.IsOwn → ∀ r ∈ found, r.FitsKey rules q.mode id.kind id.key

/-- A memo passes on what fits, and remembers nothing else. -/
theorem ensures_remember {slot : Nat} {ask : Lookup (Option Found)}
    (h : ask.Ensures (Session.Sound rules) (SearchFails q.mode id.kind) (FitsAsked rules q id)) :
    (Lookup.remember (.located ⟨slot, q.mode, q.asker⟩ id.kind id.key) ask).Ensures
      (Session.Sound rules) (SearchFails q.mode id.kind) (FitsAsked rules q id) := by
  intro s hs
  cases hk : s.remembered (.located ⟨slot, q.mode, q.asker⟩ id.kind id.key) with
  | some answer =>
    rw [Lookup.remember_of_remembered hk]
    refine ⟨hs, fun e he => ?_, fun found hfound hq r hr => ?_⟩
    · cases he
    · cases hfound
      cases hr
      exact hs.fitsKey hq hk
  | none =>
    obtain ⟨hsound, hfault, hgood⟩ := h s hs
    rcases hask : ask.start s with ⟨e | answer, t⟩
    · rw [hask] at hsound hfault
      rw [Lookup.remember_of_failed hk hask]
      exact ⟨hsound, hfault, fun found hfound => by cases hfound⟩
    · rw [hask] at hsound hgood
      cases ht : t.remembered (.located ⟨slot, q.mode, q.asker⟩ id.kind id.key) with
      | none =>
        rw [Lookup.remember_of_found hk hask ht]
        refine ⟨hsound.store (hgood answer rfl), fun e he => ?_, fun found hfound => ?_⟩
        · cases he
        · cases hfound
          exact hgood answer rfl
      | some other =>
        rw [Lookup.remember_of_overtaken hk hask ht]
        refine ⟨hsound, fun e he => ?_, fun found hfound hq r hr => ?_⟩
        · cases he
        · cases hfound
          cases hr
          exact hsound.fitsKey hq ht

/-- By induction on the locator. Only memos need to know that the identifier is made by the
reflector's rules. -/
theorem SearchesByName.ensures_locate {l : Locator} (hl : l.SearchesByName)
    (hid : q.IsOwn → ∃ name, id = .make rules id.kind name)
    (hf : id.kind = .constant → isFunction.Settles (Session.Sound rules)) :
    (l.locate isFunction q id).Ensures (Session.Sound rules) (SearchFails q.mode id.kind)
      (FitsAsked rules q id) := by
  have hfits : ∀ {l : Lookup (Option Found)},
      l.Ensures (Session.Sound rules) (SearchFails q.mode id.kind)
        (fun found => ∀ r ∈ found, r.reflection.Fits q.mode id) →
      l.Ensures (Session.Sound rules) (SearchFails q.mode id.kind) (FitsAsked rules q id) := by
    intro l h
    refine h.mono (fun e he => he) fun found hfound hq r hr => ?_
    obtain ⟨name, hname⟩ := hid hq
    exact ⟨name, congrArg Identifier.key hname.symm, hname ▸ hfound r hr⟩
  have hI := Session.keptByInstances_sound rules
  have hnone : (pure none : Lookup (Option Found)).Ensures (Session.Sound rules)
      (SearchFails q.mode id.kind) (FitsAsked rules q id) :=
    Lookup.ensures_pure fun _ r hr => by cases hr
  induction hl with
  | text source =>
    rw [locate]
    exact hfits (Source.ensures_find hI hf _)
  | file path =>
    rw [locate]
    exact hfits (ensures_findInFile hI hf path)
  | psr4 mapping =>
    rw [locate]
    exact hfits (ensures_findInFiles hI hf _)
  | classMap map =>
    rw [locate]
    split
    · split
      · exact hfits (ensures_findInFile hI hf _)
      · exact hnone
    · exact hnone
  | autoload file? =>
    rw [locate]
    split
    · exact hfits (ensures_findAutoloaded hI hf file?)
    · exact hnone
  | evaled text? =>
    rw [locate]
    split
    · exact hfits (Source.ensures_find hI hf _)
    · exact hnone
  | builtIn stubs =>
    rw [locate]
    exact hfits (ensures_findInStub hI hf _)
  | memo slot _ ih =>
    rw [locate_memo]
    exact ensures_remember ih
  | counting counter _ ih =>
    rw [locate]
    have hcount : (Lookup.countCall counter).Ensures (Session.Sound rules)
        (SearchFails q.mode id.kind) fun _ => True := Lookup.ensures_modify fun s hs => hs
    exact hcount.bind fun _ _ => ih
  | @firstOf parts hparts ih =>
    rw [locate]
    clear hparts
    induction parts with
    | nil =>
      rw [locateFirst]
      exact hnone
    | cons part rest ihrest =>
      rw [locateFirst]
      apply (ih part List.mem_cons_self).or
      exact ihrest fun p hp => ih p (List.mem_cons_of_mem _ hp)

theorem keeps_rememberListed {place : MemoPlace} {kind : Kind} {ask : Lookup (List Found)}
    (h : ask.Keeps (Session.Sound rules)) :
    (Lookup.remember (.listed place kind) ask).Keeps (Session.Sound rules) := by
  apply Lookup.keeps_of_session
  intro s hs
  -- What single declarations are remembered stays as it is.
  exact Lookup.after_remember hs (h s hs).1 fun t answer ht => ht

theorem SearchesByName.keeps_list {l : Locator} (hl : l.SearchesByName)
    (hf : isFunction.Settles (Session.Sound rules)) (q : Inquiry) (kind : Kind) :
    (l.list isFunction q kind).Keeps (Session.Sound rules) := by
  have hI := Session.keptByInstances_sound rules
  have hnone : (pure [] : Lookup (List Found)).Keeps (Session.Sound rules) :=
    Lookup.ensures_pure trivial
  induction hl with
  | text source =>
    rw [list]
    exact Source.keeps_list hI hf _
  | file path =>
    rw [list]
    exact keeps_listInFiles hI hf _
  | psr4 mapping =>
    rw [list]
    apply Lookup.ensures_get
    intro s
    apply Lookup.Ensures.bind (Lookup.keeps_ofExcept _)
    intro found _
    exact keeps_listInFiles hI hf _
  | classMap | autoload | evaled | builtIn =>
    rw [list]
    exact hnone
  | memo slot _ ih =>
    rw [list_memo]
    exact keeps_rememberListed ih
  | counting counter _ ih =>
    rw [list]
    have hcount : (Lookup.countCall counter).Keeps (Session.Sound rules) :=
      Lookup.ensures_modify fun s hs => hs
    exact hcount.bind fun _ _ => ih
  | @firstOf parts hparts ih =>
    rw [list]
    clear hparts
    induction parts with
    | nil =>
      rw [listEach]
      exact hnone
    | cons part rest ihrest =>
      rw [listEach]
      apply (ih part List.mem_cons_self).bind
      intro found _
      apply (ihrest fun p hp => ih p (List.mem_cons_of_mem _ hp)).bind
      intro others _
      exact Lookup.ensures_pure trivial

end Locator

namespace Reflectors

/-- What is asked of reflectors and of their locator, one after the other: single declarations and
lists, by a reflector or straight from the locator, where a host may ask in any way. The files may
change in between. -/
inductive Request where
  | reflect (kind : Kind) (name : String)
  | reflectAll (kind : Kind)
  | locate (mode : BuildMode) (asker kind : Kind) (name : String)
  | locateForHost (mode : BuildMode) (host : Nat) (id : Identifier)
  | list (mode : BuildMode) (asker : Nat) (kind : Kind)
  | setFiles (files : FileTree)

/-- The session behind a request. -/
def Request.run (r : Reflectors) (s : Session) : Request → Session
  | .reflect kind name => ((r.reflect kind name).start s).2
  | .reflectAll kind => ((r.reflectAll kind).start s).2
  | .locate mode asker kind name =>
    ((r.locator.locate r.hasFunction ⟨mode, asker.asker⟩ (.make r.rules kind name)).start s).2
  | .locateForHost mode host id =>
    ((r.locator.locate r.hasFunction ⟨mode, hostAsker host⟩ id).start s).2
  | .list mode asker kind => ((r.locator.list r.hasFunction ⟨mode, asker⟩ kind).start s).2
  | .setFiles files => { s with files := files }

/-- The session behind requests that are made one after the other. -/
def sessionAfter (r : Reflectors) (requests : List Request) (s : Session) : Session :=
  requests.foldl (Request.run r) s

variable {r : Reflectors} {s : Session}

theorem settles_hasFunctionAt (hl : r.locator.SearchesByName) (depth : Nat) :
    FunctionQuestion.Settles (Session.Sound r.rules) (r.hasFunctionAt depth) := by
  intro name
  cases depth with
  | zero => exact Lookup.ensures_pure trivial
  | succ depth =>
    -- A search for a function asks no such question again.
    have hlocate : (r.locator.locate (r.hasFunctionAt depth) ⟨r.mode, Kind.function.asker⟩
        (.make r.rules .function name)).Ensures (Session.Sound r.rules)
        (SearchFails r.mode .function)
        (Locator.FitsAsked r.rules ⟨r.mode, Kind.function.asker⟩ (.make r.rules .function name)) :=
      hl.ensures_locate (fun _ => ⟨name, rfl⟩) (fun h => by cases h)
    have hsearch := hlocate.mono (fun e he => he.isSearchFault (.inr rfl)) fun _ h => h
    apply hsearch.bind
    intro found hfound
    cases found with
    | none => exact Lookup.ensures_pure trivial
    | some found =>
      obtain ⟨other, -, hfits⟩ := hfound ⟨.function, rfl⟩ found rfl
      have hfunction : ∃ f, found.reflection.toFunction = .ok f := by
        have hkind : found.reflection.kind = .function := hfits.kind_eq
        cases hr : found.reflection with
        | function f => exact ⟨f, rfl⟩
        | classLike c | constant c =>
          rw [hr] at hkind
          cases hkind
      obtain ⟨f, hf⟩ := hfunction
      simp only [hf]
      exact Lookup.ensures_pure trivial

theorem settles_hasFunction (hl : r.locator.SearchesByName) :
    FunctionQuestion.Settles (Session.Sound r.rules) r.hasFunction := by
  unfold hasFunction
  split
  · exact settles_hasFunctionAt hl maxNesting
  · intro name
    exact Lookup.ensures_pure trivial

theorem ensures_locate (hl : r.locator.SearchesByName) (mode : BuildMode) (asker kind : Kind)
    (name : String) :
    (r.locator.locate r.hasFunction ⟨mode, asker.asker⟩ (.make r.rules kind name)).Ensures
      (Session.Sound r.rules) (SearchFails mode kind) fun found =>
        ∀ f ∈ found, f.FitsKey r.rules mode kind (Identifier.make r.rules kind name).key := by
  have hlocate : (r.locator.locate r.hasFunction ⟨mode, asker.asker⟩
      (.make r.rules kind name)).Ensures (Session.Sound r.rules) (SearchFails mode kind)
      (Locator.FitsAsked r.rules ⟨mode, asker.asker⟩ (.make r.rules kind name)) :=
    hl.ensures_locate (fun _ => ⟨name, rfl⟩) fun _ => settles_hasFunction hl
  exact hlocate.mono (fun _ h => h) fun _ h => h ⟨asker, rfl⟩

theorem keeps_ofKind {I : Session → Prop} (kind : Kind) (found : Found) :
    (ofKind kind found).Keeps I := by
  unfold ofKind
  split
  · exact Lookup.ensures_pure trivial
  · exact Lookup.ensures_throw trivial

/-- Every request keeps sound what is remembered. -/
theorem Request.sound (hl : r.locator.SearchesByName) (hs : s.Sound r.rules) (request : Request) :
    (request.run r s).Sound r.rules := by
  cases request with
  | reflect kind name =>
    have hlocate := (ensures_locate hl r.mode kind kind name s hs).1
    exact ((r.start_reflect kind name s).2 ▸ hlocate :)
  | reflectAll kind =>
    have hkeeps : (r.reflectAll kind).Keeps (Session.Sound r.rules) :=
      (hl.keeps_list (settles_hasFunction hl) _ kind).bind fun found _ =>
        Lookup.keeps_mapM fun f _ => keeps_ofKind kind f
    exact (hkeeps s hs).1
  | locate mode asker kind name => exact (ensures_locate hl mode asker kind name s hs).1
  | locateForHost mode host id =>
    refine (hl.ensures_locate (fun hq => ?_) (fun _ => settles_hasFunction hl) s hs).1
    obtain ⟨kind, hkind⟩ := hq
    have hhost : 4 + host = kind.asker := hkind
    cases kind <;> simp [Kind.asker] at hhost <;> omega
  | list mode asker kind => exact (hl.keeps_list (settles_hasFunction hl) _ kind s hs).1
  | setFiles files => exact hs

theorem sound_sessionAfter (hl : r.locator.SearchesByName) (hs : s.Sound r.rules)
    (requests : List Request) : (r.sessionAfter requests s).Sound r.rules := by
  induction requests generalizing s with
  | nil => exact hs
  | cons request rest ih => exact ih (request.sound hl hs)

/-- What a reflector may answer: a declaration of the kind and a name that were asked for, or that
nothing was found, with what was asked for, or a failure that has other reasons. -/
inductive Answers (id : Identifier) : Except Error Found → Prop where
  | found {found : Found} (hkind : found.reflection.kind = id.kind)
    (hname : id.accepts found.reflection.name = true) : Answers id (.ok found)
  | notFound : Answers id (.error (.identifierNotFound id))
  | failed {e : Error} (hfound : e.isNotFound = false)
    (hkind : ∀ expected found, e ≠ .unexpectedKind expected found) : Answers id (.error e)

/-- The failures of a search say neither that nothing was found nor that something else was. -/
theorem Answers.of_searchFails (id : Identifier) {mode : BuildMode} {kind : Kind} {e : Error}
    (h : SearchFails mode kind e) : Answers id (.error e) := by
  cases e with
  | identifierNotFound | unexpectedKind =>
    rcases h with h | ⟨-, -, h⟩
    · cases h
    · cases h
  | _ => exact .failed rfl (by simp)

theorem ensures_reflect (hl : r.locator.SearchesByName) {names : List String}
    (hrules : r.rules = .ofList names) (kind : Kind) {name : String}
    (hname : Name.stripRoot name = Name.stripRoots name) :
    (r.reflect kind name).Ensures (Session.Sound r.rules)
      (fun e => Answers (.make r.rules kind name) (.error e))
      fun found => Answers (.make r.rules kind name) (.ok found) := by
  have hlocate := (ensures_locate hl r.mode kind kind name).mono
    (fun e he => Answers.of_searchFails (.make r.rules kind name) he) fun _ h => h
  apply hlocate.bind
  intro answer hanswer
  cases answer with
  | none => exact Lookup.ensures_throw .notFound
  | some found =>
    obtain ⟨other, hkey, hfits⟩ := hanswer found rfl
    have hkind : found.reflection.kind = kind := hfits.kind_eq
    have haccepts := hfits.accepts
    rw [hrules] at hkey haccepts ⊢
    have hmatches := Identifier.accepts_of_key_eq hname hkey haccepts
    unfold ofKind
    simp only [if_pos hkind]
    exact Lookup.ensures_pure (.found hkind hmatches)

/-- After any requests, in whatever order and however the files change between them, a reflector
gives a declaration of its kind whose name is the one asked for, or says that nothing was found for
just that name, or fails for other reasons; it never comes upon a declaration of another kind.
What is asked under a reflector's own number is made by its rules; the host asks under numbers of
its own, by any identifiers. -/
theorem reflect_answers (r : Reflectors) (hl : r.locator.SearchesByName) (names : List String)
    (hrules : r.rules = .ofList names) (files : FileTree) (requests : List Request) (kind : Kind)
    (name : String) (hname : Name.stripRoot name = Name.stripRoots name) :
    Answers (.make r.rules kind name)
      ((r.reflect kind name).start (r.sessionAfter requests (.start files))).1 := by
  have hsound := sound_sessionAfter hl (Session.sound_start r.rules files) requests
  obtain ⟨-, hfault, hgood⟩ := ensures_reflect hl hrules kind hname _ hsound
  cases hanswer : ((r.reflect kind name).start (r.sessionAfter requests (.start files))).1 with
  | error e => exact hfault e hanswer
  | ok found => exact hgood found hanswer

/-- Two memos, one inside the other, over a text and a file. -/
def nestedMemos : Reflectors :=
  ⟨.memo 0 (.firstOf [.text "<?php const True = 1;", .memo 1 (.file "lib.php")]), .compiled,
    .ofList ["\\TRUE"], true⟩

/-- A class that is looked for before and after its file exists, and a constant that is looked for
with two leading backslashes. -/
def changingRequests : List Request :=
  [.reflect .classLike "App\\Foo",
    .setFiles ⟨[(["lib.php"], .file (some "<?php namespace App; class Foo \x7b\x7d"))], []⟩,
    .reflect .constant "\\\\true", .reflectAll .classLike,
    .locate .identifierOnly .function .constant "TRUE"]

theorem reflect_answers_nestedMemos :
    nestedMemos.locator.SearchesByName ∧
      (∀ lookup ∈ [(Kind.constant, "TRUE"), (Kind.classLike, "\\APP\\foo")],
        Name.stripRoot lookup.2 = Name.stripRoots lookup.2 ∧
          Answers (.make nestedMemos.rules lookup.1 lookup.2)
            ((nestedMemos.reflect lookup.1 lookup.2).start
              (nestedMemos.sessionAfter changingRequests (.start .empty))).1) ∧
      ([(Kind.constant, "TRUE"), (Kind.classLike, "\\APP\\foo")].map fun lookup =>
        ((nestedMemos.reflect lookup.1 lookup.2).start
          (nestedMemos.sessionAfter changingRequests (.start .empty))).1.toOption.map
            (·.reflection.name)) = [none, some "App\\Foo"] := by
  have hl : nestedMemos.locator.SearchesByName := by
    refine .memo 0 (.firstOf fun part hpart => ?_)
    rcases List.mem_cons.mp hpart with rfl | hpart
    · exact .text _
    · obtain rfl := List.mem_singleton.mp hpart
      exact .memo 1 (.file _)
  refine ⟨hl, fun lookup hlookup => ?_, by decide +kernel⟩
  have hname : Name.stripRoot lookup.2 = Name.stripRoots lookup.2 := by
    revert lookup
    decide +kernel
  refine ⟨hname, ?_⟩
  exact reflect_answers nestedMemos hl ["\\TRUE"] rfl .empty changingRequests lookup.1 lookup.2
    hname

end Reflectors

end StaticReflection
