import Mathlib.Data.List.Nodup
import StaticReflection.Proofs.EvaluatedParts
import StaticReflection.Reflection.Build

/-!
Constants of a class that refer to one another. An initialiser may name constants of its own class,
and these are evaluated through their initialisers, so many one after the other. As long as chains
of such references end within the limit, the limit cannot be seen: wherever evaluation comes upon a
constant of the class, it finds what its initialiser comes to by itself.
-/

namespace StaticReflection

open Syntax

/-- Whether a written class is the class that is being looked at: by one of the two words for it, or
by a name that resolves to it. -/
def Scope.MeansSelf (s : Scope) (written : String) : Prop :=
  Name.lower written = "self" ∨ Name.lower written = "static" ∨
    (Name.lower written ≠ "parent" ∧
      ∃ own, s.selfClass = some own ∧ Name.sameLetters own (s.imports.resolveClass written) = true)

/-- The constant of the class itself that `scope::selector` refers to, if it refers to one. -/
def Scope.ownName? (s : Scope) (scope selector : Expr) : Option String :=
  match scopeClass s (s.textOf scope) with
  | .ok (some resolved) =>
    if isOwnClass s (s.textOf scope) resolved &&
        !Name.sameLetters (s.textOf selector) "class" then
      some (s.textOf selector)
    else none
  | _ => none

/-- Evaluation of an expression, where so many constants of the class may be followed one after the
other, asks for this one. -/
def Asks (s : Scope) (left : Nat) (e : Expr) (name : String) : Prop :=
  ∃ span scope selector, Evaluates s (s.follow left) e (.classConstant span scope selector) ∧
    s.ownName? scope selector = some name

/-- A chain of constants of the class from an expression on: evaluation asks for the first in the
expression, and for each other in the initialiser of the one before. References that evaluation
passes over do not count. -/
inductive SelfChain (s : Scope) : Nat → Expr → List String → Prop
  | nil {left : Nat} {e : Expr} : SelfChain s left e []
  | cons {left : Nat} {e value : Expr} {name : String} {rest : List String}
      (hask : Asks s left e name) (hlocal : s.local? name = some value)
      (hrest : SelfChain s (left - 1) value rest) : SelfChain s left e (name :: rest)

/-- No chain from the expression on has more than so many links. -/
def ChainsWithin (s : Scope) (height : Nat) (e : Expr) : Prop :=
  ∀ names, SelfChain s height e names → names.length ≤ height

/-- Evaluation of an expression, where so many constants of the class may be followed, comes to an
expression, in it or in an initialiser that is followed, where so many are left. -/
inductive Reaches (s : Scope) : Nat → Expr → Nat → Expr → Prop
  | part {left : Nat} {e x : Expr} (h : Evaluates s (s.follow left) e x) : Reaches s left e left x
  | link {left rest : Nat} {e value x : Expr} {name : String} (hask : Asks s (left + 1) e name)
      (hlocal : s.local? name = some value) (h : Reaches s left value rest x) :
      Reaches s (left + 1) e rest x

section Follow

variable {s : Scope}

theorem ownName?_eq_some {scope selector : Expr} {name : String}
    (h : s.ownName? scope selector = some name) :
    name = s.textOf selector ∧ Name.sameLetters name "class" = false ∧
      ∃ resolved, scopeClass s (s.textOf scope) = .ok (some resolved) ∧
        isOwnClass s (s.textOf scope) resolved = true := by
  unfold Scope.ownName? at h
  split at h
  · rename_i resolved hscope
    split at h
    · rename_i hown
      cases h
      simp only [Bool.and_eq_true, Bool.not_eq_true'] at hown
      exact ⟨rfl, hown.2, resolved, hscope, hown.1⟩
    · cases h
  · cases h

/-- In a class, what means the class itself refers to its constants; only `class` is none of
them. -/
theorem ownName?_of_meansSelf {scope selector : Expr} (hclass : s.selfClass.isSome)
    (hself : s.MeansSelf (s.textOf scope))
    (hname : Name.sameLetters (s.textOf selector) "class" = false) :
    s.ownName? scope selector = some (s.textOf selector) := by
  obtain ⟨own, hown⟩ := Option.isSome_iff_exists.mp hclass
  have hboth : ∃ resolved, scopeClass s (s.textOf scope) = .ok (some resolved) ∧
      isOwnClass s (s.textOf scope) resolved = true := by
    rcases hself with hword | hword | ⟨hparent, own', hown', hsame⟩
    · refine ⟨own, ?_, by simp [isOwnClass, hword]⟩
      simp only [scopeClass, hword, Scope.selfName, hown]
      rfl
    · refine ⟨own, ?_, by simp [isOwnClass, hword]⟩
      simp only [scopeClass, hword, Scope.selfName, hown]
      rfl
    · by_cases hword : Name.lower (s.textOf scope) = "self" ∨ Name.lower (s.textOf scope) = "static"
      · refine ⟨own, ?_, by rcases hword with hword | hword <;> simp [isOwnClass, hword]⟩
        simp only [scopeClass, if_pos hword, Scope.selfName, hown]
        rfl
      · refine ⟨s.imports.resolveClass (s.textOf scope), ?_, by simp [isOwnClass, hown', hsame]⟩
        simp only [scopeClass, if_neg hword, if_neg hparent]
  obtain ⟨resolved, hscope, hown⟩ := hboth
  simp [Scope.ownName?, hscope, hown, hname]

/-- A constant of the class itself is what following it gives. -/
theorem evalDepth_own {depth : Nat} {scope selector : Expr} {name : String}
    (hown : s.ownName? scope selector = some name) {result : Except Error Value}
    (hfollow : s.follow depth name = some result) (span : Span) :
    evalDepth s depth (.classConstant span scope selector) = result := by
  obtain ⟨rfl, hname, resolved, hscope, hclass⟩ := ownName?_eq_some hown
  rw [evalDepth_classConstant]
  exact evalClassConstant_own hscope hname hclass hfollow

/-- Class constants that are not of the class itself do not depend on how its constants are
followed. -/
theorem evalClassConstant_congr {follow follow' : String → Option (Except Error Value)}
    {scope selector : Expr}
    (h : ∀ name, s.ownName? scope selector = some name → follow' name = follow name) :
    evalClassConstant s follow' (s.textOf scope) (s.textOf selector) =
      evalClassConstant s follow (s.textOf scope) (s.textOf selector) := by
  unfold evalClassConstant
  cases hscope : scopeClass s (s.textOf scope) with
  | error e => rfl
  | ok found =>
    cases found with
    | none => rfl
    | some resolved =>
      simp only [bind, Except.bind]
      by_cases hname : Name.sameLetters (s.textOf selector) "class" = true
      · rw [if_pos hname, if_pos hname]
      · rw [if_neg hname, if_neg hname]
        by_cases hown : isOwnClass s (s.textOf scope) resolved = true
        · have hself : s.ownName? scope selector = some (s.textOf selector) := by
            simp [Scope.ownName?, hscope, hown, hname]
          rw [if_pos hown, if_pos hown, h _ hself]
        · rw [if_neg hown, if_neg hown]

theorem Asks.of_evaluates {left : Nat} {e x : Expr} {name : String}
    (hx : Evaluates s (s.follow left) e x) (h : Asks s left x name) : Asks s left e name := by
  obtain ⟨span, scope, selector, hasked, hown⟩ := h
  exact ⟨span, scope, selector, hx.trans hasked, hown⟩

/-- Where evaluation comes to, chains are no longer. -/
theorem ChainsWithin.of_evaluates {height : Nat} {e x : Expr} (h : ChainsWithin s height e)
    (hx : Evaluates s (s.follow height) e x) : ChainsWithin s height x := by
  intro names hnames
  cases hnames with
  | nil => exact Nat.zero_le _
  | cons hask hlocal hrest => exact h _ (.cons (hask.of_evaluates hx) hlocal hrest)

/-- Where no link is left, evaluation asks for no constant that the class has. -/
theorem ChainsWithin.local?_of_asks {e : Expr} (h : ChainsWithin s 0 e) {name : String}
    (hask : Asks s 0 e name) : s.local? name = none := by
  cases hlocal : s.local? name with
  | none => rfl
  | some value => exact absurd (h [name] (.cons hask hlocal .nil)) (by simp)

/-- Chains from an initialiser that is followed are shorter by one. -/
theorem ChainsWithin.of_asks {height : Nat} {e value : Expr} (h : ChainsWithin s (height + 1) e)
    {name : String} (hask : Asks s (height + 1) e name) (hlocal : s.local? name = some value) :
    ChainsWithin s height value := by
  intro names hnames
  have hlonger := h (name :: names) (.cons hask hlocal hnames)
  rw [List.length_cons] at hlonger
  exact Nat.le_of_succ_le_succ hlonger

theorem ChainsWithin.of_reaches {left rest : Nat} {e x : Expr} (hx : Reaches s left e rest x)
    (h : ChainsWithin s left e) : ChainsWithin s rest x := by
  induction hx with
  | part hx => exact h.of_evaluates hx
  | link hask hlocal _ ih => exact ih (h.of_asks hask hlocal)

theorem Reaches.le {left rest : Nat} {e x : Expr} (h : Reaches s left e rest x) : rest ≤ left := by
  induction h with
  | part => exact Nat.le_refl _
  | link _ _ _ ih => exact Nat.le_succ_of_le ih

/-- Two ways to follow constants that agree on those which evaluation asks for give the same. -/
theorem evalWith_eq_of_asks {left : Nat} {follow : String → Option (Except Error Value)} {e : Expr}
    (h : ∀ name, Asks s left e name → follow name = s.follow left name) :
    evalWith s follow e = evalWith s (s.follow left) e := by
  refine agreesByTips rfl e fun x hx htip => ?_
  cases x with
  | classConstant span scope selector =>
    rw [evalWith, evalWith]
    exact evalClassConstant_congr fun name hown => h name ⟨span, scope, selector, hx, hown⟩
  | parenthesized | array | unary | binary | conditional => cases htip
  | string span text value => cases value <;> rw [evalWith, evalWith]
  | _ => simp only [evalWith]

/-- Where chains end within so many links, it does not matter how many more may be followed. -/
theorem evalDepth_of_chainsWithin {height depth : Nat} {e : Expr} (h : ChainsWithin s height e)
    (hle : height ≤ depth) : evalDepth s depth e = evalDepth s height e := by
  induction height generalizing depth e with
  | zero =>
    rw [evalDepth_eq, evalDepth_eq]
    refine evalWith_eq_of_asks fun name hask => ?_
    have hnone := h.local?_of_asks hask
    cases depth with
    | zero => rfl
    | succ below => simp [Scope.follow, hnone]
  | succ height ih =>
    obtain ⟨below, rfl⟩ : ∃ below, depth = below + 1 := ⟨depth - 1, by omega⟩
    rw [evalDepth_eq, evalDepth_eq]
    refine evalWith_eq_of_asks fun name hask => ?_
    rw [Scope.follow, Scope.follow]
    cases hlocal : s.local? name with
    | none => rfl
    | some value =>
      rw [Option.map_some, Option.map_some, ih (h.of_asks hask hlocal) (by omega)]

/-- Where chains end within the limit, an expression comes to what it comes to at the start, however
many constants have been followed before. -/
theorem evalDepth_eq_eval {height depth : Nat} {e : Expr} (h : ChainsWithin s height e)
    (hle : height ≤ depth) (hlimit : depth ≤ maxSelfDepth) : evalDepth s depth e = eval s e := by
  rw [eval, evalDepth_of_chainsWithin h hle,
    evalDepth_of_chainsWithin h (Nat.le_trans hle hlimit)]

end Follow

/-! ### Chains on paper

Chains of what evaluation asks for are no longer than chains of what stands in the initialisers. -/

/-- The constants of the class itself that stand in an expression where it may be evaluated. -/
def Syntax.Expr.ownNames (s : Scope) (e : Expr) : List String :=
  e.tips.filterMap fun
    | .classConstant _ scope selector => s.ownName? scope selector
    | _ => none

section OnPaper

variable {s : Scope}

theorem mem_ownNames_of_asks {left : Nat} {e : Expr} {name : String} (h : Asks s left e name) :
    name ∈ e.ownNames s := by
  obtain ⟨span, scope, selector, hx, hown⟩ := h
  refine List.mem_filterMap.mpr ⟨.classConstant span scope selector, ?_, hown⟩
  refine tips_subset_of_evaluates hx ?_
  rw [tips_of_isTip rfl]
  exact List.mem_singleton_self _

theorem mem_of_local? {name : String} {value : Expr} (h : s.local? name = some value) :
    ∃ item ∈ s.locals, item.name = name ∧ item.value = value := by
  obtain ⟨item, hfound, hvalue⟩ := Option.map_eq_some_iff.mp h
  have hname := List.find?_some hfound
  exact ⟨item, List.mem_reverse.mp (List.mem_of_find?_eq_some hfound), eq_of_beq hname, hvalue⟩

/-- Where each initialiser refers to constants of lower ranks only, ranks bound chains. -/
theorem length_le_of_rank {rank : String → Nat}
    (hrank : ∀ item ∈ s.locals, ∀ other ∈ item.value.ownNames s, rank other < rank item.name)
    {left : Nat} {e : Expr} {names : List String} (h : SelfChain s left e names) {height : Nat}
    (he : ∀ name ∈ e.ownNames s, rank name < height) : names.length ≤ height := by
  induction h generalizing height with
  | nil => exact Nat.zero_le _
  | cons hask hlocal _ ih =>
    obtain ⟨item, hitem, rfl, rfl⟩ := mem_of_local? hlocal
    have hfirst := he _ (mem_ownNames_of_asks hask)
    have hothers := ih (hrank item hitem)
    rw [List.length_cons]
    omega

end OnPaper

/-! ### The constants of a class -/

/-- What the constants of a class are evaluated in. -/
def bodyScope (f : FileScope) (imports : Imports) (decl : ClassDecl) : Scope :=
  classScope f (classHead f imports decl .compiled) decl.members

theorem local?_of_mem {s : Scope} (hdistinct : (s.locals.map (·.name)).Nodup) {item : ConstItem}
    (hitem : item ∈ s.locals) : s.local? item.name = some item.value := by
  have hfound : s.locals.reverse.find? (·.name == item.name) = some item := by
    generalize hitems : s.locals.reverse = items
    have hmem : item ∈ items := hitems ▸ List.mem_reverse.mpr hitem
    have hnodup : (items.map (·.name)).Nodup := by
      rw [← hitems, List.map_reverse]
      exact List.nodup_reverse.mpr hdistinct
    clear hitems
    induction items with
    | nil => cases hmem
    | cons first rest ih =>
      rw [List.map_cons, List.nodup_cons] at hnodup
      rcases List.mem_cons.mp hmem with rfl | hmem
      · exact List.find?_cons_of_pos (by simp)
      · rw [List.find?_cons_of_neg, ih hmem hnodup.2]
        intro hsame
        exact hnodup.1 (List.mem_map.mpr ⟨item, hmem, (eq_of_beq hsame).symm⟩)
  rw [Scope.local?, hfound]
  rfl

/-- Wherever evaluation of one initialiser comes upon the constant of the other, by one of the words
for the class or by a name for it, it finds what the other initialiser comes to by itself, value or
error. -/
def ReadsInitialiser (s : Scope) (outer item : ConstItem) : Prop :=
  ∀ left span scope selector,
    Reaches s maxSelfDepth outer.value left (.classConstant span scope selector) →
      s.MeansSelf (s.textOf scope) → s.textOf selector = item.name →
        evalDepth s left (.classConstant span scope selector) = eval s item.value

/-- In a class with distinct constants, evaluation of an initialiser reads each of them as its
initialiser says, if the chains from there on have no more links than may be followed; only what is
called `class` cannot be read. What an expression comes to does not depend on how many constants
have been followed before, as long as these and its own chains are no more than that. -/
theorem self_references_read_initialisers (f : FileScope) (imports : Imports) (decl : ClassDecl)
    (hdistinct : ((localConstants decl.members).map (·.name)).Nodup) :
    let s := bodyScope f imports decl
    (∀ outer ∈ localConstants decl.members, ChainsWithin s maxSelfDepth outer.value →
      ∀ item ∈ localConstants decl.members, Name.sameLetters item.name "class" = false →
        ReadsInitialiser s outer item) ∧
      ∀ e height depth, ChainsWithin s height e → depth + height ≤ maxSelfDepth →
        evalDepth s (maxSelfDepth - depth) e = eval s e := by
  intro s
  refine ⟨?_, ?_⟩
  · intro outer _ hchains item hitem hclass left span scope selector hreached hself hname
    have hown : s.ownName? scope selector = some item.name := by
      rw [← hname] at hclass ⊢
      exact ownName?_of_meansSelf rfl hself hclass
    have hlocal : s.local? item.name = some item.value := local?_of_mem hdistinct hitem
    have hask : Asks s left (.classConstant span scope selector) item.name :=
      ⟨span, scope, selector, .refl, hown⟩
    have hwithin := hchains.of_reaches hreached
    -- With no link left, the chain from here on would be too long.
    cases left with
    | zero =>
      rw [hwithin.local?_of_asks hask] at hlocal
      cases hlocal
    | succ below =>
      have hfollow : s.follow (below + 1) item.name = some (evalDepth s below item.value) := by
        rw [Scope.follow, hlocal]
        rfl
      rw [evalDepth_own hown hfollow]
      exact evalDepth_eq_eval (hwithin.of_asks hask hlocal) (Nat.le_refl _)
        (Nat.le_of_succ_le hreached.le)
  · intro e height depth hchains hle
    exact evalDepth_eq_eval hchains (by omega) (by omega)

/-- A file without text and without a name. -/
def blankFile : FileScope := ⟨⟨"", none, .user⟩, .ofText "", []⟩

/-- A class constant with these words around its colons. -/
def classConstantOf (scope name : String) : Expr :=
  .classConstant ⟨0, 0⟩ (.leaf ⟨0, 0⟩ .name scope) (.leaf ⟨0, 0⟩ .name name)

/-- A class `D` with these constants. -/
def classWith (items : List ConstItem) : ClassDecl where
  span := ⟨0, 0⟩
  attributes := []
  modifiers := []
  kind := .classDecl
  name := "D"
  parents := []
  interfaces := []
  backing := none
  members := [.constant ⟨0, 0⟩ [] [] items]

/-- The constant `A = 1`. -/
def linkedA : ConstItem := ⟨"A", .leaf ⟨0, 0⟩ .number "1"⟩

/-- The constant `B = [self::A]`. -/
def linkedB : ConstItem := ⟨"B", .array ⟨0, 0⟩ [.value (classConstantOf "self" "A")]⟩

/-- The constant `C = \N\d::B . static::A`. -/
def linkedC : ConstItem :=
  ⟨"C", .binary ⟨0, 0⟩ .concat (classConstantOf "\\N\\d" "B") (classConstantOf "static" "A")⟩

/-- The class `N\D` with these three constants. -/
def linked : ClassDecl := classWith [linkedA, linkedB, linkedC]

theorem self_references_read_initialisers_linked :
    ((localConstants linked.members).map (·.name)).Nodup ∧
      ChainsWithin (bodyScope blankFile (.empty (some "N")) linked) maxSelfDepth linkedC.value ∧
      evalDepth (bodyScope blankFile (.empty (some "N")) linked) maxSelfDepth
          (classConstantOf "\\N\\d" "B") =
        eval (bodyScope blankFile (.empty (some "N")) linked) linkedB.value := by
  have hdistinct : ((localConstants linked.members).map (·.name)).Nodup := by decide
  have hrank : ∀ item ∈ (bodyScope blankFile (.empty (some "N")) linked).locals,
      ∀ other ∈ item.value.ownNames (bodyScope blankFile (.empty (some "N")) linked),
        ["A", "B", "C"].idxOf other < ["A", "B", "C"].idxOf item.name := by
    decide +kernel
  have hchains : ChainsWithin (bodyScope blankFile (.empty (some "N")) linked) maxSelfDepth
      linkedC.value :=
    fun names hnames => length_le_of_rank hrank hnames (by decide +kernel)
  have hreads := (self_references_read_initialisers blankFile (.empty (some "N")) linked
    hdistinct).1 linkedC (by simp [linked, localConstants, classWith]) hchains linkedB
    (by simp [linked, localConstants, classWith]) (by decide)
  refine ⟨hdistinct, hchains, ?_⟩
  exact hreads maxSelfDepth ⟨0, 0⟩ (.leaf ⟨0, 0⟩ .name "\\N\\d") (.leaf ⟨0, 0⟩ .name "B")
    (.part (.single .left)) (.inr (.inr ⟨by decide, "N\\D", by rfl, by decide⟩)) (by decide)

/-- The constant `CLASS = 1`. -/
def constantClass : ConstItem := ⟨"CLASS", .leaf ⟨0, 0⟩ .number "1"⟩

/-- The constant `A = self::CLASS`. -/
def namesClass : ConstItem := ⟨"A", classConstantOf "self" "CLASS"⟩

/-- What looks like a reference to a constant that is called `class` is the name of the class. -/
theorem self_reference_to_class_misread :
    ¬ ∀ (f : FileScope) (imports : Imports) (decl : ClassDecl),
      ((localConstants decl.members).map (·.name)).Nodup →
      ∀ outer ∈ localConstants decl.members,
        ChainsWithin (bodyScope f imports decl) maxSelfDepth outer.value →
        ∀ item ∈ localConstants decl.members,
          ReadsInitialiser (bodyScope f imports decl) outer item := by
  intro h
  have hrank : ∀ item ∈ (bodyScope blankFile (.empty none)
      (classWith [constantClass, namesClass])).locals, ∀ other ∈ item.value.ownNames
        (bodyScope blankFile (.empty none) (classWith [constantClass, namesClass])), 0 < 0 := by
    decide +kernel
  have hreads := h blankFile (.empty none) (classWith [constantClass, namesClass]) (by decide)
    namesClass (by simp [localConstants, classWith])
    (fun names hnames => length_le_of_rank hrank hnames (by decide +kernel))
    constantClass (by simp [localConstants, classWith])
  have hsame := hreads maxSelfDepth ⟨0, 0⟩ (.leaf ⟨0, 0⟩ .name "self")
    (.leaf ⟨0, 0⟩ .name "CLASS") (.part .refl) (.inl (by decide)) (by decide)
  have hstring : evalDepth (bodyScope blankFile (.empty none) (classWith
      [constantClass, namesClass])) maxSelfDepth namesClass.value = .ok (.string "D") := by rfl
  have hint : eval (bodyScope blankFile (.empty none) (classWith [constantClass, namesClass]))
      constantClass.value = .ok (.int 1) := by rfl
  cases (hstring.symm.trans hsame).trans hint

end StaticReflection
