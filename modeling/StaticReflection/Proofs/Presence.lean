import StaticReflection.Proofs.SearchModes
import StaticReflection.Proofs.SoundAnswers

/-!
Whether something is there, and what it is. A project that is asked whether it has a declaration
searches for its head; one that is asked for the declaration describes it in full. Both searches go
the same way through the same chain, and each of them has its own remembered answers. So the one
fails, or finds nothing, just where the other does, but for declarations that cannot be described in
full.
-/

namespace StaticReflection

/-- Sessions over given files in which no head is remembered. -/
structure Session.WithoutHeads (files : FileTree) (s : Session) : Prop where
  files_eq : s.files = files
  unasked : ∀ slot asker kind key,
    s.remembered (.located ⟨slot, .identifierOnly, asker⟩ kind key) = none

namespace Session.WithoutHeads

variable {files : FileTree} {s : Session}

theorem start (files : FileTree) : (Session.start files).WithoutHeads files := by
  constructor
  · rfl
  · intro slot asker kind key
    exact remembered_start files _

theorem setting (files : FileTree) : Setting files (Session.WithoutHeads files) := by
  constructor
  · intro s hs
    exact hs.files_eq
  · intro s hs
    exact ⟨hs.files_eq, hs.unasked⟩

/-- Full descriptions are remembered apart from heads. -/
theorem store (hs : s.WithoutHeads files) {mode : BuildMode} (hmode : mode = .compiled)
    (slot asker : Nat) (kind : Kind) (key : String) (answer : Option Found) :
    (s.store (.located ⟨slot, mode, asker⟩ kind key) answer).WithoutHeads files := by
  subst hmode
  constructor
  · exact hs.files_eq
  · intro slot' asker' kind' key'
    have hne : MemoKey.located ⟨slot', .identifierOnly, asker'⟩ kind' key' ≠
        .located ⟨slot, .compiled, asker⟩ kind key := by
      intro heq
      injection heq with hplace
      injection hplace with _ hmode
      cases hmode
    rw [remembered_store_of_ne s hne]
    exact hs.unasked slot' asker' kind' key'

end Session.WithoutHeads

theorem Locator.IsChain.searchesByName {l : Locator} (hl : l.IsChain) : l.SearchesByName := by
  have hread := hl.readsAlike_self (.make .standard .function "")
  clear hl
  induction hread with
  | text source => exact .text source
  | file path => exact .file path
  | psr4 => exact .psr4 _
  | classMap => exact .classMap _
  | builtIn => exact .builtIn _
  | firstOf _ ih => exact .firstOf ih

namespace Lookup

variable {α β : Type} {I I' J : Session → Prop} {view : α → β} {l l' : Lookup α}

/-- A setting that is kept anyway may be added to one in which lookups answer alike. -/
theorem Alike.and_keeps (h : l.Alike I J view l') (hkeeps : l.Keeps I') :
    l.Alike (fun s => I s ∧ I' s) J view l' := by
  intro s t hs ht
  obtain ⟨hview, hI, hJ⟩ := h s t hs.1 ht
  have hI' : I' (l.start s).2 := (hkeeps s hs.2).1
  exact ⟨hview, ⟨hI, hI'⟩, hJ⟩

theorem Alike.keeps (h : l.Alike I J view l') {t : Session} (ht : J t) : l.Keeps I :=
  keeps_of_session fun s hs => (h s t hs ht).2.1

end Lookup

/-- Whether two searches go the same way does not depend on the numbers of instances. -/
theorem SameSearch.congr {heads full full' : Except Error (Option Found)}
    (h : SameSearch heads full) (hseen : full'.map seen = full.map seen) :
    SameSearch heads full' := by
  cases h with
  | failed e =>
    rw [Error.error_of_map hseen]
    exact .failed e
  | absent =>
    rcases full' with e | _ | found
    · cases hseen
    · exact .absent
    · cases hseen
  | described hhead =>
    rcases full' with e | _ | found
    · cases hseen
    · cases hseen
    · have hsame : found.reflection = _ := Option.some.inj (Except.ok.inj hseen)
      exact .described (hsame ▸ hhead)
  | undescribed hfault =>
    rw [Error.error_of_map hseen]
    exact .undescribed hfault

namespace Reflectors

/-- The search for the head of a declaration. Questions about functions that come up on the way are
put to the reflectors as they are. -/
def locateHead (r : Reflectors) (kind : Kind) (name : String) : Lookup (Option Found) :=
  r.locator.locate r.hasFunction ⟨.identifierOnly, kind.asker⟩ (r.identifier (kind, name))

variable {r : Reflectors} {files : FileTree} {s t : Session}

/-- Without a memo both searches go the same way. -/
theorem goesLike_locateHead (hl : r.locator.IsChain) (hmode : r.mode = .compiled) (kind : Kind)
    (name : String) :
    (r.locateHead kind name).GoesLike (fun s => s.files = files) (fun t => t.files = files)
      (r.locate kind.asker (r.identifier (kind, name))) := by
  have hquestion : FunctionQuestion.Alike (fun s => s.files = files) (fun t => t.files = files)
      r.hasFunction r.hasFunction :=
    alike_hasFunction rfl (alike_hasFunctionAt_self hl (.ofFiles files) (.ofFiles files))
  unfold locateHead locate
  rw [hmode]
  exact hl.goesLike_locate (.ofFiles files) (.ofFiles files) (fun _ => hquestion) _ _

section Memoized

variable {slot : Nat} {history : List Identifier}

/-- Asking whether a function exists leaves no heads behind. -/
theorem keeps_hasFunctionAt_memoized (hl : r.locator.IsChain) (hmode : r.mode = .compiled)
    (depth : Nat) (name : String) :
    ((r.memoized slot).hasFunctionAt depth name).Keeps (Session.WithoutHeads files) := by
  cases depth with
  | zero => exact Lookup.ensures_pure trivial
  | succ depth =>
    have hinner : (r.locator.locate ((r.memoized slot).hasFunctionAt depth)
        ⟨r.mode, Kind.function.asker⟩ (r.identifier (.function, name))).Keeps
        (Session.WithoutHeads files) := by
      -- A search for a function asks no such question.
      have halike : (r.locator.locate ((r.memoized slot).hasFunctionAt depth)
          ⟨r.mode, Kind.function.asker⟩ (r.identifier (.function, name))).Alike
          (Session.WithoutHeads files) (fun t => t.files = files) seen
          (r.locator.locate r.hasFunction ⟨r.mode, Kind.function.asker⟩
            (r.identifier (.function, name))) :=
        (hl.readsAlike_self _).alike_locate (Session.WithoutHeads.setting files) (.ofFiles files)
          (fun h => by cases h) (.refl _) _ _ _
      exact halike.keeps (show (Session.start files).files = files from rfl)
    have hlocate : ((r.memoized slot).locator.locate ((r.memoized slot).hasFunctionAt depth)
        ⟨r.mode, Kind.function.asker⟩ (r.identifier (.function, name))).Keeps
        (Session.WithoutHeads files) := by
      apply Lookup.keeps_of_session
      intro s hs
      have hremember : (r.memoized slot).locator.locate ((r.memoized slot).hasFunctionAt depth)
          ⟨r.mode, Kind.function.asker⟩ (r.identifier (.function, name)) =
            Lookup.remember (r.memoKey slot (r.identifier (.function, name)))
              (r.locator.locate ((r.memoized slot).hasFunctionAt depth)
                ⟨r.mode, Kind.function.asker⟩ (r.identifier (.function, name))) :=
        locate_memoized r slot _ (r.identifier (.function, name))
      rw [hremember]
      apply Lookup.after_remember hs (hinner s hs).1
      intro t answer ht
      exact ht.store hmode _ _ _ _ _
    apply hlocate.bind
    intro found _
    cases found with
    | none => exact Lookup.ensures_pure trivial
    | some found =>
      apply (Lookup.keeps_ofExcept found.reflection.toFunction).bind
      intro _ _
      exact Lookup.ensures_pure trivial

/-- Sessions that follow a history of full descriptions, and in which no head is remembered. -/
abbrev RemembersNoHeads (r : Reflectors) (slot : Nat) (files : FileTree)
    (history : List Identifier) (s : Session) : Prop :=
  r.Remembers slot files history s ∧ s.WithoutHeads files

theorem setting_remembersNoHeads :
    Setting files (r.RemembersNoHeads slot files history) := by
  constructor
  · intro s hs
    exact hs.1.files_eq
  · intro s hs
    exact ⟨setting_remembers.handOut s hs.1, (Session.WithoutHeads.setting files).handOut s hs.2⟩

theorem alike_hasFunction_memoized (hl : r.locator.IsChain) (hmode : r.mode = .compiled) :
    FunctionQuestion.Alike (r.RemembersNoHeads slot files history) (fun t => t.files = files)
      (r.memoized slot).hasFunction r.hasFunction := by
  have hquestion : ∀ depth, FunctionQuestion.Alike (r.RemembersNoHeads slot files history)
      (fun t => t.files = files) ((r.memoized slot).hasFunctionAt depth)
      (r.hasFunctionAt depth) := by
    intro depth name
    apply (alike_hasFunctionAt_memoized hl depth name).and_keeps
    exact keeps_hasFunctionAt_memoized hl hmode depth name
  exact alike_hasFunction rfl hquestion

/-- What is remembered of heads does not matter for full descriptions. -/
theorem Remembers.store_head (hmode : r.mode = .compiled) (hs : r.Remembers slot files history s)
    (slot' asker : Nat) (kind : Kind) (key : String) (answer : Option Found) :
    r.Remembers slot files history
      (s.store (.located ⟨slot', .identifierOnly, asker⟩ kind key) answer) := by
  have hrecalled : ∀ id, r.recalled slot
      (s.store (.located ⟨slot', .identifierOnly, asker⟩ kind key) answer) id =
        r.recalled slot s id := by
    intro id
    apply Session.remembered_store_of_ne
    intro heq
    injection heq with hplace
    injection hplace with _ hmode'
    rw [hmode] at hmode'
    cases hmode'
  constructor
  · exact hs.files_eq
  · intro name found hfound
    rw [hrecalled] at hfound
    exact hs.functions name found hfound
  · intro id hid
    rw [hrecalled]
    exact hs.others id hid

/-- The first search for a head through the memo goes the way of a search for a full description
without one. -/
theorem RemembersNoHeads.locateHead (hl : r.locator.IsChain) (hmode : r.mode = .compiled)
    (hs : r.RemembersNoHeads slot files history s) (kind : Kind) (name : String) :
    SameSearch (((r.memoized slot).locateHead kind name).start s).1
        ((r.locate kind.asker (r.identifier (kind, name))).start (.start files)).1 ∧
      r.Remembers slot files history (((r.memoized slot).locateHead kind name).start s).2 := by
  have hinner : (r.locator.locate (r.memoized slot).hasFunction ⟨.identifierOnly, kind.asker⟩
      (r.identifier (kind, name))).GoesLike (r.RemembersNoHeads slot files history)
      (fun t => t.files = files) (r.locate kind.asker (r.identifier (kind, name))) := by
    unfold locate
    rw [hmode]
    exact hl.goesLike_locate setting_remembersNoHeads (.ofFiles files)
      (fun _ => alike_hasFunction_memoized hl hmode) _ _
  have hremember : (r.memoized slot).locateHead kind name =
      Lookup.remember (.located ⟨slot, .identifierOnly, kind.asker⟩ kind
        (r.identifier (kind, name)).key)
        (r.locator.locate (r.memoized slot).hasFunction ⟨.identifierOnly, kind.asker⟩
          (r.identifier (kind, name))) :=
    Locator.locate_memo _ _ slot r.locator (r.identifier (kind, name))
  obtain ⟨hsame, ⟨hhistory, hheads⟩, -⟩ := hinner s (.start files) hs rfl
  have hk := hs.2.unasked slot kind.asker kind (r.identifier (kind, name)).key
  rw [hremember]
  rcases hask : (r.locator.locate (r.memoized slot).hasFunction ⟨.identifierOnly, kind.asker⟩
      (r.identifier (kind, name))).start s with ⟨e | answer, u⟩
  · rw [hask] at hsame hhistory
    rw [Lookup.remember_of_failed hk hask]
    exact ⟨hsame, hhistory⟩
  · rw [hask] at hsame hhistory hheads
    -- No head is searched for behind the memo, so none has been remembered meanwhile.
    have hu := hheads.unasked slot kind.asker kind (r.identifier (kind, name)).key
    rw [Lookup.remember_of_found hk hask hu]
    exact ⟨hsame, hhistory.store_head hmode _ _ _ _ _⟩

/-- Full descriptions leave no heads behind. -/
theorem RemembersNoHeads.locate (hl : r.locator.IsChain) (hmode : r.mode = .compiled)
    (hs : r.RemembersNoHeads slot files history s) (kind : Kind) (name : String) :
    (((r.memoized slot).locate kind.asker (r.identifier (kind, name))).start s).2.WithoutHeads
      files := by
  have hinner : (r.locator.locate (r.memoized slot).hasFunction ⟨r.mode, kind.asker⟩
      (r.identifier (kind, name))).Alike (r.RemembersNoHeads slot files history)
      (fun t => t.files = files) seen
      (r.locator.locate r.hasFunction ⟨r.mode, kind.asker⟩ (r.identifier (kind, name))) :=
    (hl.readsAlike_self _).alike_locate setting_remembersNoHeads (.ofFiles files)
      (fun _ => alike_hasFunction_memoized hl hmode) (.refl _) _ _ _
  have hremember : (r.memoized slot).locate kind.asker (r.identifier (kind, name)) =
      Lookup.remember (r.memoKey slot (r.identifier (kind, name)))
        (r.locator.locate (r.memoized slot).hasFunction ⟨r.mode, kind.asker⟩
          (r.identifier (kind, name))) :=
    locate_memoized r slot (r.memoized slot).hasFunction (r.identifier (kind, name))
  rw [hremember]
  apply Lookup.after_remember hs.2 (hinner s (.start files) hs rfl).2.1.2
  intro t answer ht
  exact ht.store hmode _ _ _ _ _

theorem remembersNoHeads_start : r.RemembersNoHeads slot files [] (.start files) := by
  refine ⟨⟨rfl, ?_, ?_⟩, .start files⟩
  · intro name answer h
    cases h
  · intro id _
    rfl

end Memoized

/-- The sessions in which reflectors are asked for a head: nothing was asked before, or the full
description was. -/
def sessionsForHead (r : Reflectors) (files : FileTree) (kind : Kind) (name : String) :
    List Session :=
  [.start files, ((r.reflect kind name).start (.start files)).2]

/-- The sessions in which reflectors are asked for a full description: nothing was asked before, or
the head was. -/
def sessionsForFull (r : Reflectors) (files : FileTree) (kind : Kind) (name : String) :
    List Session :=
  [.start files, ((r.locateHead kind name).start (.start files)).2]

/-- The two searches go the same way, whichever is made first, or both in new sessions. -/
abbrev SearchesAgree (r : Reflectors) (files : FileTree) (kind : Kind) (name : String) : Prop :=
  ∀ s ∈ r.sessionsForHead files kind name, ∀ t ∈ r.sessionsForFull files kind name,
    SameSearch ((r.locateHead kind name).start s).1
      ((r.locate kind.asker (r.identifier (kind, name))).start t).1

theorem searchesAgree_bare (hl : r.locator.IsChain) (hmode : r.mode = .compiled) (kind : Kind)
    (name : String) : r.SearchesAgree files kind name := by
  intro s hs t ht
  have hlike : (r.locateHead kind name).GoesLike (fun s => s.files = files)
      (fun t => t.files = files) (r.locate kind.asker (r.identifier (kind, name))) :=
    goesLike_locateHead hl hmode kind name
  have hsfiles : s.files = files := by
    rcases List.mem_cons.mp hs with rfl | hs
    · rfl
    · rw [List.mem_singleton.mp hs, (r.start_reflect kind name _).2]
      exact (hlike (.start files) (.start files) rfl rfl).2.2
  have htfiles : t.files = files := by
    rcases List.mem_cons.mp ht with rfl | ht
    · rfl
    · rw [List.mem_singleton.mp ht]
      exact (hlike (.start files) (.start files) rfl rfl).2.1
  exact (hlike s t hsfiles htfiles).1

theorem searchesAgree_memoized (hl : r.locator.IsChain) (hmode : r.mode = .compiled) (slot : Nat)
    (kind : Kind) (name : String) : (r.memoized slot).SearchesAgree files kind name := by
  intro s hs t ht
  have hstart : r.RemembersNoHeads slot files [] (.start files) := remembersNoHeads_start
  have hhead : ∃ history, r.RemembersNoHeads slot files history s := by
    rcases List.mem_cons.mp hs with rfl | hs
    · exact ⟨[], hstart⟩
    · rw [List.mem_singleton.mp hs, ((r.memoized slot).start_reflect kind name _).2]
      have hremembers := (hstart.1.locate hl (by simp) kind name).2
      exact ⟨_, hremembers, hstart.locate hl hmode kind name⟩
  have hfull : r.Remembers slot files [] t := by
    rcases List.mem_cons.mp ht with rfl | ht
    · exact hstart.1
    · rw [List.mem_singleton.mp ht]
      exact (hstart.locateHead hl hmode kind name).2
  obtain ⟨history, hhead⟩ := hhead
  apply (hhead.locateHead hl hmode kind name).1.congr
  -- Without earlier lookups the memo gives what the locator behind it does.
  have hfresh : r.foundAfter files [] (r.identifier (kind, name)) =
      r.foundFresh files (r.identifier (kind, name)) :=
    foundAfter_eq_foundFresh (by simp)
  exact (hfull.locate hl (by simp) kind name).1.trans hfresh

end Reflectors

/-- What a project says when it is asked whether something is there, and what it says when it is
asked for a full description. -/
structure PresenceAgrees (id : Identifier) (present : Except Error Bool)
    (reflected : Except Error Found) : Prop where
  /-- It is not there if it cannot be found. -/
  absent_iff : present = .ok false ↔ reflected = .error (.identifierNotFound id)
  /-- Both fail for the same reasons, which are neither that it cannot be found nor that it cannot
  be described. -/
  fails_iff : ∀ e, present = .error e ↔
    reflected = .error e ∧ e.isNotFound = false ∧ e ≠ .noSelf ∧ e ≠ .noFileName
  /-- It is there also if it can be found and not be described. -/
  present_iff : present = .ok true ↔
    (∃ full, reflected = .ok full) ∨ reflected = .error .noSelf ∨ reflected = .error .noFileName

/-- Searches that go the same way lead to answers that agree. -/
theorem SameSearch.presenceAgrees {id : Identifier} {head located : Except Error (Option Found)}
    {reflected : Except Error Found} (h : SameSearch head located)
    (hfault : ∀ e, head = .error e → e.isSearchFault = true)
    (hkind : ∀ full, located = .ok (some full) → full.reflection.kind = id.kind)
    (hreflected : reflected.map (·.reflection) = Reflectors.answerOf id (located.map seen)) :
    PresenceAgrees id (head.map (·.isSome)) reflected := by
  cases h with
  | failed e =>
    obtain ⟨hfound, hself, hfile⟩ := Error.other_of_isSearchFault (hfault e rfl)
    have hnot : ∀ id', e ≠ .identifierNotFound id' := by
      rintro id' rfl
      cases hfound
    obtain rfl : reflected = .error e := Error.error_of_map hreflected
    constructor
    · simp [Except.map, hnot]
    · intro e'
      constructor
      · intro he
        cases he
        exact ⟨rfl, hfound, hself, hfile⟩
      · rintro ⟨he, -⟩
        cases he
        rfl
    · simp [Except.map, hself, hfile]
  | absent =>
    obtain rfl : reflected = .error (.identifierNotFound id) := Error.error_of_map hreflected
    constructor
    · simp [Except.map]
    · simp [Except.map, Error.isNotFound]
    · simp [Except.map]
  | @described _ full hhead =>
    have hok : ∃ found, reflected = .ok found := by
      cases reflected with
      | ok found => exact ⟨found, rfl⟩
      | error e =>
        have hanswer : Reflectors.answerOf id (Except.map seen (.ok (some full))) =
            .ok full.reflection := if_pos (hkind full rfl)
        rw [hanswer] at hreflected
        cases hreflected
    obtain ⟨found, rfl⟩ := hok
    constructor <;> simp [Except.map]
  | @undescribed _ e hbuild =>
    obtain rfl : reflected = .error e := Error.error_of_map hreflected
    rcases Error.eq_of_isBuildFault hbuild with rfl | rfl <;>
      constructor <;> simp [Except.map]

namespace Project

variable {embedded : StubCollection} {files : FileTree} {root : String} {config : Config}
  {p : Project}

theorem start_has (p : Project) (kind : Kind) (name : String) (s : Session) :
    (p.has kind name).start s = (((p.reflectors.locateHead kind name).start s).1.map (·.isSome),
      ((p.reflectors.locateHead kind name).start s).2) := by
  have hmap : p.has kind name =
      (fun found => found.isSome) <$> p.reflectors.locateHead kind name := by
    rw [map_eq_pure_bind]
    rfl
  rw [hmap]
  exact Lookup.start_map _ _ s

/-- The reflectors of a project are those of a chain, with or without a memo in front of it. -/
theorem exists_chain_of_build (h : build embedded files root config [] = .ok p) :
    ∃ r : Reflectors, r.locator.IsChain ∧ r.mode = .compiled ∧ r.rules = p.config.rules ∧
      (p.reflectors = r ∨ p.reflectors = r.memoized chainSlot) := by
  obtain ⟨parts, hparts, h⟩ := Error.ok_of_bind h
  cases h
  refine ⟨⟨.firstOf parts, .compiled, config.rules, true⟩, ?_, rfl, rfl, ?_⟩
  · exact isChain_of_chainParts (by simp) hparts
  · unfold reflectors Reflectors.memoized
    cases config.memoize with
    | true => exact .inr rfl
    | false => exact .inl rfl

theorem searchesByName_of_build (h : build embedded files root config [] = .ok p) :
    p.reflectors.locator.SearchesByName := by
  obtain ⟨r, hl, -, -, hr | hr⟩ := exists_chain_of_build h
  · rw [hr]
    exact hl.searchesByName
  · rw [hr]
    exact .memo chainSlot hl.searchesByName

theorem searchesAgree_of_build (h : build embedded files root config [] = .ok p) (kind : Kind)
    (name : String) : p.reflectors.SearchesAgree files kind name := by
  obtain ⟨r, hl, hmode, -, hr | hr⟩ := exists_chain_of_build h
  · rw [hr]
    exact Reflectors.searchesAgree_bare hl hmode kind name
  · rw [hr]
    exact Reflectors.searchesAgree_memoized hl hmode chainSlot kind name

/-- One source file below a root that is not below the working directory. -/
def servedFiles (text : String) : FileTree :=
  ⟨[(["srv"], .directory), (["srv", "src"], .directory),
    (["srv", "src", "a.php"], .file (some text))], ["home"]⟩

def servedConfig : Config :=
  { Config.standard with phpVersion := some ⟨8, 1, 0⟩, composer := false, paths := ["src"] }

def servedProject (embedded : StubCollection) : Project :=
  ⟨"/srv", servedConfig, .memo chainSlot
    (.firstOf [.firstOf [.file "/srv/src/a.php"], .builtIn (stubs embedded servedConfig)])⟩

theorem build_servedProject (embedded : StubCollection) (text : String) :
    build embedded (servedFiles text) "/srv" servedConfig [] = .ok (servedProject embedded) := by
  have hdirectory : (servedFiles text).isDirectory (Path.join "/srv" "src") = true := rfl
  have hfound : (servedFiles text).sourceFiles (Path.join "/srv" "src") =
      .ok ["/srv/src/a.php"] := rfl
  refine build_of_directory rfl rfl hdirectory hfound fun path hpath => ?_
  rw [List.mem_singleton.mp hpath]
  rfl

/-- A class, and a constant that needs a class where there is none. -/
def selflessText : String :=
  "<?php namespace App; class Foo extends Bar \x7b\x7d const BAD = self::X;"

/-- A stub of two functions, one of which is there no longer. -/
def eachStubs : StubCollection :=
  ⟨[("standard/f.php",
      "<?php function strlen($s) \x7b\x7d /** @removed 8.0 */ function each(&$a) \x7b\x7d")],
    ⟨[(.function, "strlen", 0), (.function, "each", 0)]⟩⟩

def selflessLookups : List (Kind × String) :=
  [(.classLike, "app\\FOO"), (.constant, "App\\BAD"), (.function, "App\\f"),
    (.function, "StrLen"), (.function, "each")]

end Project

end StaticReflection
