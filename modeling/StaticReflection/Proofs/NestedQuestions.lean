import StaticReflection.Proofs.Presence

/-!
Questions that come up on the way. Whether a call of `define` declares a constant may hang on
whether a function exists, which is found out by a lookup through the same chain. That lookup is for
a function, and lookups for functions, as those for classes, put no such question, whatever the
sources hold. So lookups go round once at most, and what answers a question behind the first one
does not matter.
-/

namespace StaticReflection

/-! ### What is asked on the way -/

/-- Two questions that agree about the functions `define` of namespaces. -/
def FunctionQuestion.AgreesOnDefine (ask other : FunctionQuestion) : Prop :=
  ∀ space, ask (space ++ "\\define") = other (space ++ "\\define")

section Sources

variable {ask other : FunctionQuestion} {mode : BuildMode} {id : Identifier} {kind : Kind}

theorem Declaration.exists_of_rivalDefine {d : Declaration} {name : String}
    (h : d.rivalDefine? = some name) : ∃ space, name = space ++ "\\define" := by
  unfold rivalDefine? at h
  split at h
  · split at h
    · cases h
    · cases h
      exact ⟨_, rfl⟩
  · cases h

theorem Declaration.isShadowed_congr {d : Declaration}
    (h : d.kind = .constant → ask.AgreesOnDefine other) :
    d.isShadowed ask = d.isShadowed other := by
  unfold isShadowed
  cases hrival : d.rivalDefine? with
  | none => rfl
  | some name =>
    obtain ⟨space, rfl⟩ := exists_of_rivalDefine hrival
    exact h (kind_of_rivalDefine hrival) space

theorem findDeclared_congr {ds : List Declaration} (f : FileScope)
    (h : ∀ d ∈ ds, d.kind = .constant → ask.AgreesOnDefine other) :
    findDeclared ask f mode ds = findDeclared other f mode ds := by
  induction ds with
  | nil => rfl
  | cons d rest ih =>
    rw [findDeclared, findDeclared, Declaration.isShadowed_congr (h d List.mem_cons_self),
      ih fun e he => h e (List.mem_cons_of_mem _ he)]

theorem listDeclared_congr {ds : List Declaration} (f : FileScope)
    (h : ∀ d ∈ ds, d.kind = .constant → ask.AgreesOnDefine other) :
    listDeclared ask f mode ds = listDeclared other f mode ds := by
  induction ds with
  | nil => rfl
  | cons d rest ih =>
    rw [listDeclared, listDeclared, Declaration.isShadowed_congr (h d List.mem_cons_self),
      ih fun e he => h e (List.mem_cons_of_mem _ he)]

theorem Source.find_congr (h : id.kind = .constant → ask.AgreesOnDefine other) (source : Source) :
    source.find ask mode id = source.find other mode id := by
  unfold find
  -- What is searched has the kind of the identifier, so only a search for constants asks.
  refine bind_congr fun p => findDeclared_congr _ fun d hd hkind => h ?_
  rw [← p.kind_of_mem (List.mem_filter.mp hd).1, hkind]

theorem Source.list_congr (h : kind = .constant → ask.AgreesOnDefine other) (source : Source) :
    source.list ask mode kind = source.list other mode kind := by
  unfold list
  refine bind_congr fun p => listDeclared_congr _ fun d hd hkind => h ?_
  rw [← p.kind_of_mem (List.mem_filter.mp hd).1, hkind]

theorem findInFile_congr (h : id.kind = .constant → ask.AgreesOnDefine other) (path : String) :
    findInFile ask mode path id = findInFile other mode path id :=
  bind_congr fun source => source.find_congr h

theorem findInFiles_congr (h : id.kind = .constant → ask.AgreesOnDefine other)
    (paths : List String) :
    findInFiles ask mode id paths = findInFiles other mode id paths := by
  induction paths with
  | nil => rfl
  | cons path rest ih => rw [findInFiles, findInFiles, findInFile_congr h, ih]

theorem findAutoloaded_congr (h : id.kind = .constant → ask.AgreesOnDefine other)
    (file? : String → Option String) :
    findAutoloaded ask mode file? id = findAutoloaded other mode file? id := by
  unfold findAutoloaded
  split
  · rfl
  · simp only [findInFile_congr h]

theorem findInStub_congr (h : id.kind = .constant → ask.AgreesOnDefine other)
    (stub : Option Stub) : findInStub ask mode id stub = findInStub other mode id stub := by
  unfold findInStub
  split
  · exact Source.find_congr h _
  · rfl

theorem listInFiles_congr (h : kind = .constant → ask.AgreesOnDefine other)
    (paths : List String) :
    listInFiles ask mode kind paths = listInFiles other mode kind paths := by
  induction paths with
  | nil => rfl
  | cons path rest ih =>
    rw [listInFiles, listInFiles, ih]
    exact bind_congr fun source => by rw [source.list_congr h]

end Sources

namespace Locator

variable {ask other : FunctionQuestion} {q : Inquiry}

/-- By induction on the locator. What it asks on the way comes up in its leaves. -/
theorem SearchesByName.locate_congr {l : Locator} (hl : l.SearchesByName) {id : Identifier}
    (h : id.kind = .constant → ask.AgreesOnDefine other) :
    l.locate ask q id = l.locate other q id := by
  induction hl with
  | text source => exact Source.find_congr h _
  | file path => exact findInFile_congr h path
  | psr4 mapping => exact findInFiles_congr h _
  | classMap map =>
    rw [locate, locate]
    split
    · split
      · exact findInFile_congr h _
      · rfl
    · rfl
  | autoload file? =>
    rw [locate, locate]
    split
    · exact findAutoloaded_congr h file?
    · rfl
  | evaled text? =>
    rw [locate, locate]
    split
    · exact Source.find_congr h _
    · rfl
  | builtIn stubs => exact findInStub_congr h _
  | memo slot _ ih => rw [locate, locate, ih]
  | counting counter _ ih => rw [locate, locate, ih]
  | @firstOf parts hparts ih =>
    rw [locate, locate]
    clear hparts
    induction parts with
    | nil => rfl
    | cons part rest ihrest =>
      rw [locateFirst, locateFirst, ih part List.mem_cons_self,
        ihrest fun p hp => ih p (List.mem_cons_of_mem _ hp)]

theorem SearchesByName.list_congr {l : Locator} (hl : l.SearchesByName) {kind : Kind}
    (h : kind = .constant → ask.AgreesOnDefine other) :
    l.list ask q kind = l.list other q kind := by
  induction hl with
  | text source => exact Source.list_congr h _
  | file path => exact listInFiles_congr h [path]
  | psr4 mapping =>
    rw [list, list]
    exact bind_congr fun s => bind_congr fun found => listInFiles_congr h found.flatten
  | classMap | autoload | evaled | builtIn => rfl
  | memo slot _ ih => rw [list, list, ih]
  | counting counter _ ih => rw [list, list, ih]
  | @firstOf parts hparts ih =>
    rw [list, list]
    clear hparts
    induction parts with
    | nil => rfl
    | cons part rest ihrest =>
      rw [listEach, listEach, ih part List.mem_cons_self,
        ihrest fun p hp => ih p (List.mem_cons_of_mem _ hp)]

end Locator

/-! ### Going round -/

namespace Reflectors

/-- What a lookup for a function says about whether it exists. -/
def isThere : Option Found → Lookup Bool
  | some found => do
    let _ ← Lookup.ofExcept found.reflection.toFunction
    return true
  | none => pure false

/-- Whether a function exists, by a lookup for it that puts questions of its own to `inner`. -/
def round (r : Reflectors) (inner : FunctionQuestion) : FunctionQuestion := fun name =>
  r.locator.locate inner ⟨r.mode, Kind.function.asker⟩ (.make r.rules .function name) >>= isThere

/-- Questions that go round so many times. Those that are still open are put to `beyond`. -/
def rounds (r : Reflectors) (beyond : FunctionQuestion) : Nat → FunctionQuestion
  | 0 => beyond
  | depth + 1 => r.round (r.rounds beyond depth)

theorem hasFunctionAt_eq_rounds (r : Reflectors) (depth : Nat) :
    r.hasFunctionAt depth = r.rounds (fun _ => pure false) depth := by
  induction depth with
  | zero => rfl
  | succ depth ih =>
    funext name
    rw [rounds, ← ih, hasFunctionAt, round]
    refine bind_congr fun found => ?_
    cases found <;> rfl

variable {r : Reflectors}

/-- What is asked on the way to a function is not asked at all. -/
theorem round_congr (hl : r.locator.SearchesByName) (inner inner' : FunctionQuestion) :
    r.round inner = r.round inner' := by
  funext name
  rw [round, round, hl.locate_congr fun hkind => ?_]
  cases hkind

theorem rounds_eq_round (hl : r.locator.SearchesByName) (beyond inner : FunctionQuestion)
    {depth : Nat} (hdepth : 0 < depth) : r.rounds beyond depth = r.round inner := by
  obtain ⟨depth, rfl⟩ := Nat.exists_eq_add_of_lt hdepth
  rw [Nat.zero_add, rounds]
  -- No induction: the first round never comes to the second one.
  exact round_congr hl _ _

theorem hasFunction_eq_round (hl : r.locator.SearchesByName) (hvets : r.vetsDefines = true)
    (inner : FunctionQuestion) : r.hasFunction = r.round inner := by
  rw [hasFunction, if_pos hvets, hasFunctionAt_eq_rounds]
  exact rounds_eq_round hl _ inner (by decide)

end Reflectors

namespace Project

/-- The locators that a project asks: its chain, a single file, and a line of a file. -/
inductive Asks (p : Project) : Locator → Prop
  | chain : Asks p p.chain
  | file (path : String) : Asks p (.file path)
  | closure (path : String) (line : Nat) : Asks p (.closure path line)

variable {embedded : StubCollection} {files : FileTree} {root : String} {config : Config}
  {p : Project}

theorem Asks.locate_congr {l : Locator} (hl : p.Asks l) (hchain : p.chain.SearchesByName)
    {ask other : FunctionQuestion} {q : Inquiry} {id : Identifier}
    (h : id.kind = .constant → ask.AgreesOnDefine other) :
    l.locate ask q id = l.locate other q id := by
  cases hl with
  | chain => exact hchain.locate_congr h
  | file path => exact (Locator.SearchesByName.file path).locate_congr h
  | closure path line => rw [Locator.locate, Locator.locate]

theorem Asks.list_congr {l : Locator} (hl : p.Asks l) (hchain : p.chain.SearchesByName)
    {ask other : FunctionQuestion} {q : Inquiry} {kind : Kind}
    (h : kind = .constant → ask.AgreesOnDefine other) :
    l.list ask q kind = l.list other q kind := by
  cases hl with
  | chain => exact hchain.list_congr h
  | file path => exact (Locator.SearchesByName.file path).list_congr h
  | closure path line => cases kind <;> rfl

/-- Lookups for classes and functions, single ones and those for all, put no question about
functions, and lookups for constants only ask for functions `define`. Such a question is answered by
a lookup for a function, which goes the same way whatever would answer further questions. So every
lookup has come to its end when questions have gone round once, whatever stands behind that, and
there is just one way to answer questions that also answers those it puts itself. -/
theorem questions_nest_once (h : build embedded files root config [] = .ok p) :
    (∀ l, p.Asks l → ∀ q,
      (∀ id : Identifier, id.kind ≠ .constant → ∀ ask other : FunctionQuestion,
        l.locate ask q id = l.locate other q id) ∧
      (∀ kind, kind ≠ .constant → ∀ ask other : FunctionQuestion,
        l.list ask q kind = l.list other q kind) ∧
      (∀ ask other : FunctionQuestion, ask.AgreesOnDefine other →
        l.locate ask q = l.locate other q ∧ l.list ask q = l.list other q) ∧
      ∀ beyond depth, 0 < depth →
        l.locate (p.reflectors.rounds beyond depth) q = l.locate p.reflectors.hasFunction q ∧
        l.list (p.reflectors.rounds beyond depth) q = l.list p.reflectors.hasFunction q) ∧
      (∀ (ask : FunctionQuestion) (name : String), p.reflectors.round ask name =
        p.reflectors.locate Kind.function.asker (.make p.config.rules .function name) >>=
          Reflectors.isThere) ∧
      ∀ ask, ask = p.reflectors.round ask ↔ ask = p.reflectors.hasFunction := by
  have hchain := searchesByName_of_build h
  have hround : ∀ ask, p.reflectors.hasFunction = p.reflectors.round ask :=
    Reflectors.hasFunction_eq_round hchain rfl
  refine ⟨fun l hl q => ⟨fun id hid ask other => ?_, fun kind hkind ask other => ?_,
    fun ask other hagree => ?_, fun beyond depth hdepth => ?_⟩, fun ask name => ?_, fun ask => ?_⟩
  · exact hl.locate_congr hchain fun hconstant => absurd hconstant hid
  · exact hl.list_congr hchain fun hconstant => absurd hconstant hkind
  · exact ⟨funext fun id => hl.locate_congr hchain fun _ => hagree,
      funext fun kind => hl.list_congr hchain fun _ => hagree⟩
  · rw [Reflectors.rounds_eq_round hchain beyond beyond hdepth, ← hround beyond]
    exact ⟨rfl, rfl⟩
  · exact congrFun (Reflectors.round_congr hchain ask p.reflectors.hasFunction) name
  · constructor
    · intro hask
      rw [hask, ← hround]
    · rintro rfl
      exact hround _

/-- A namespace with a function `define` of its own, which is called in it. -/
def rivalText : String :=
  "<?php namespace N; function define($k) \x7b\x7d define('A', 1); const B = 2;"

/-- A stub with such a namespace. -/
def rivalStubs : StubCollection :=
  ⟨[("Core/s.php",
      "<?php namespace S; function define($k) \x7b\x7d define('C', 1); const D = 2;")],
    ⟨[(.function, "S\\define", 0), (.constant, "C", 0), (.constant, "S\\D", 0)]⟩⟩

def rivalConstants : List String := ["A", "N\\B", "C", "S\\D"]

/-- Whether a lookup for a constant finds it. -/
def findsConstant (ask : FunctionQuestion) (name : String) : Option Bool :=
  (((servedProject rivalStubs).chain.locate ask inquiry (.make .standard .constant name)).start
    (.start (servedFiles rivalText))).1.toOption.map (·.isSome)

/-- Without going round, the calls would count as declarations of constants. -/
theorem questions_nest_once_rivalText :
    build rivalStubs (servedFiles rivalText) "/srv" servedConfig [] =
        .ok (servedProject rivalStubs) ∧
      (∀ beyond, rivalConstants.map
          (findsConstant ((servedProject rivalStubs).reflectors.rounds beyond 1)) =
        [some false, some true, some false, some true]) ∧
      rivalConstants.map (findsConstant
          ((servedProject rivalStubs).reflectors.rounds (fun _ => pure false) 0)) =
        [some true, some true, some true, some true] := by
  have hbuild := build_servedProject rivalStubs rivalText
  have hrounds : ∀ beyond, findsConstant ((servedProject rivalStubs).reflectors.rounds beyond 1) =
      findsConstant (servedProject rivalStubs).reflectors.hasFunction := by
    intro beyond
    funext name
    obtain ⟨-, -, -, hdepth⟩ := (questions_nest_once hbuild).1 _ .chain inquiry
    rw [findsConstant, (hdepth beyond 1 Nat.one_pos).1, findsConstant]
  refine ⟨hbuild, fun beyond => ?_, by decide +kernel⟩
  rw [hrounds]
  decide +kernel

end Project

end StaticReflection
