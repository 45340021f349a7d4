import StaticReflection.Proofs.SelfReferences

/-!
Constants of a class as defaults of its methods' parameters. A default is evaluated in the method,
and so is the initialiser of a constant of the class that it refers to. All that is different there
is the name of the function: the initialiser gives the value that is reported for the constant,
unless its evaluation asks for the function or method around it.
-/

namespace StaticReflection

open Syntax

/-- The scope of a function in the class. -/
def Scope.inFunction (s : Scope) (name : String) : Scope := { s with function := some name }

/-- Whether an expression is the magic constant for the function or the method around it. -/
def Scope.namesFunction (s : Scope) : Expr → Bool
  | .string .. | .classConstant .. => false
  | e => e.isTip &&
      ["__function__", "__method__"].contains (Name.lower (Name.stripRoots (s.textOf e)))

/-- What a default is whose evaluation gives this: one that cannot be evaluated is kept as text. -/
def defaultOf (s : Scope) (e : Expr) : Except Error Value → Value
  | .ok v => v
  | .error _ => .unresolved (s.textOf e)

/-- The default of the parameter at this position is a constant of the class itself. -/
inductive OwnDefault (s : Scope) (params : List Param) (position : Nat) (item : ConstItem) :
    Expr → Prop
  | intro {param : Param} {span : Span} {scope selector : Expr}
      (hparam : params[position]? = some param)
      (hdefault : param.default = some (.classConstant span scope selector))
      (hself : s.MeansSelf (s.textOf scope)) (hname : s.textOf selector = item.name) :
      OwnDefault s params position item (.classConstant span scope selector)

/-- The default that is reported for the parameter at a position. -/
def MethodInfo.default? (m : MethodInfo) (position : Nat) : Option Value :=
  (m.params[position]?).bind (·.default)

/-- The value that is reported for a constant of the class. -/
def ClassReflection.constantValue? (c : ClassReflection) (name : String) : Option Value :=
  (c.constant? name).map (·.value)

/-! ### Evaluation in a function -/

section InFunction

variable {s : Scope}

theorem evalText_inFunction {text : String}
    (h : ["__function__", "__method__"].contains (Name.lower (Name.stripRoots text)) = false)
    (name : String) (offset : Nat) :
    evalText (s.inFunction name) offset text = evalText s offset text := by
  simp only [List.contains_cons, List.contains_nil, Bool.or_false, Bool.or_eq_false_iff,
    beq_eq_false_iff_ne, ne_eq] at h
  unfold evalText
  split
  case h_9 hword => exact absurd hword h.1
  case h_10 hword => exact absurd hword h.2
  all_goals rfl

/-- A tip that does not ask for the function around it comes to the same in a function, as far as
the constants of the class do. -/
theorem evalWith_tip_inFunction {name : String}
    {follow follow' : String → Option (Except Error Value)} {x : Expr} (htip : x.isTip = true)
    (hnames : s.namesFunction x = false)
    (hfollow : ∀ span scope selector own, x = .classConstant span scope selector →
      s.ownName? scope selector = some own → follow' own = follow own) :
    evalWith (s.inFunction name) follow' x = evalWith s follow x := by
  cases x with
  | classConstant span scope selector =>
    rw [evalWith, evalWith]
    have hscope : evalClassConstant (s.inFunction name) = evalClassConstant s := rfl
    have htext : (s.inFunction name).textOf = s.textOf := rfl
    rw [hscope, htext]
    exact evalClassConstant_congr fun own hown => hfollow span scope selector own rfl hown
  | parenthesized | array | unary | binary | conditional => cases htip
  | string span text value => cases value <;> rw [evalWith, evalWith]
  | _ =>
    simp only [Scope.namesFunction, Expr.isTip, Bool.true_and, Scope.textOf] at hnames
    simp only [evalWith]
    exact evalText_inFunction hnames name _

/-- In a function nothing changes where evaluation does not ask for it. -/
theorem evalDepth_inFunction {name : String} {depth : Nat} {e : Expr}
    (h : ∀ left x, Reaches s depth e left x → s.namesFunction x = false) :
    evalDepth (s.inFunction name) depth e = evalDepth s depth e := by
  have hsource : (s.inFunction name).source = s.source := rfl
  induction depth generalizing e with
  | zero =>
    rw [evalDepth_eq, evalDepth_eq]
    refine agreesByTips hsource e fun x hx htip => ?_
    exact evalWith_tip_inFunction htip (h 0 x (.part hx)) fun _ _ _ _ _ _ => rfl
  | succ depth ih =>
    rw [evalDepth_eq, evalDepth_eq]
    refine agreesByTips hsource e fun x hx htip =>
      evalWith_tip_inFunction htip (h (depth + 1) x (.part hx)) ?_
    rintro span scope selector own rfl hown
    have hask : Asks s (depth + 1) e own := ⟨span, scope, selector, hx, hown⟩
    have hlocals : (s.inFunction name).local? own = s.local? own := rfl
    rw [Scope.follow, Scope.follow, hlocals]
    cases hlocal : s.local? own with
    | none => rfl
    | some value =>
      have hvalue := ih fun left x hx => h left x (.link hask hlocal hx)
      rw [Option.map_some, Option.map_some, hvalue]

/-- Evaluation asks for no function if none stands in the expression or in an initialiser. -/
theorem namesFunction_of_reaches
    (hlocals : ∀ item ∈ s.locals, ∀ tip ∈ item.value.tips, s.namesFunction tip = false)
    {depth left : Nat} {e x : Expr} (hx : Reaches s depth e left x)
    (he : ∀ tip ∈ e.tips, s.namesFunction tip = false) : s.namesFunction x = false := by
  induction hx with
  | part hx =>
    rename_i x
    cases htip : x.isTip with
    | true =>
      refine he x (tips_subset_of_evaluates hx ?_)
      rw [tips_of_isTip htip]
      exact List.mem_singleton_self x
    | false =>
      unfold Scope.namesFunction
      split <;> simp_all
  | link _ hlocal _ ih =>
    obtain ⟨item, hitem, -, rfl⟩ := mem_of_local? hlocal
    exact ih (hlocals item hitem)

end InFunction

/-! ### What is reported of a class -/

section Reported

variable {f : FileScope} {imports : Imports} {decl : ClassDecl} {c : ClassReflection}

/-- What is said of a constant is its name and the value of its initialiser. -/
def ClassConstantInfo.Describes (s : Scope) (item : ConstItem) (info : ClassConstantInfo) : Prop :=
  info.name = item.name ∧ eval s item.value = .ok info.value

theorem describes_of_items {s : Scope} {span : Span} {modifiers : List Modifier}
    {items : List ConstItem} {attributes : List Expr} {infos : List ClassConstantInfo}
    (h : buildConstants f s (.constant span attributes modifiers items) = .ok infos) :
    List.Forall₂ (ClassConstantInfo.Describes s) items infos := by
  rw [buildConstants] at h
  induction items generalizing infos with
  | nil =>
    cases h
    exact .nil
  | cons item items ih =>
    rw [List.mapM_cons] at h
    obtain ⟨info, hinfo, h⟩ := Error.ok_of_bind h
    obtain ⟨others, hothers, h⟩ := Error.ok_of_bind h
    obtain ⟨value, hvalue, hinfo⟩ := Error.ok_of_bind hinfo
    cases h
    cases hinfo
    exact .cons ⟨rfl, hvalue⟩ (ih hothers)

/-- The constants that are reported of members are those declared in them. -/
theorem describes_of_members {s : Scope} {members : List Member}
    {found : List (List ClassConstantInfo)} (h : members.mapM (buildConstants f s) = .ok found) :
    List.Forall₂ (ClassConstantInfo.Describes s) (localConstants members) found.flatten := by
  induction members generalizing found with
  | nil =>
    cases h
    exact .nil
  | cons member rest ih =>
    rw [List.mapM_cons] at h
    obtain ⟨first, hfirst, h⟩ := Error.ok_of_bind h
    obtain ⟨others, hothers, h⟩ := Error.ok_of_bind h
    cases h
    rw [localConstants, List.flatMap_cons, List.flatten_cons]
    refine List.rel_append ?_ (ih hothers)
    cases member with
    | constant => exact describes_of_items hfirst
    | method | property | case | traitUse =>
      cases hfirst
      exact .nil

/-- What a class is described as, member by member. -/
theorem parts_of_buildClass (h : buildClass f imports (.classLike decl) .compiled = .ok c) :
    List.Forall₂ (ClassConstantInfo.Describes (bodyScope f imports decl))
      (localConstants decl.members) c.constants ∧
    ∀ modifiers method, .method modifiers method ∈ decl.members →
      buildMethod f (bodyScope f imports decl) decl.kind modifiers method ∈ c.methods := by
  obtain ⟨found, hfound, h⟩ := Error.ok_of_bind h
  cases h
  refine ⟨describes_of_members hfound, fun modifiers method hmethod => ?_⟩
  exact List.mem_filterMap.mpr ⟨_, hmethod, rfl⟩

/-- Of distinct constants, the first with a name is the one that is declared with it. -/
theorem find?_of_describes {s : Scope} {items : List ConstItem} {infos : List ClassConstantInfo}
    (h : List.Forall₂ (ClassConstantInfo.Describes s) items infos)
    (hdistinct : (items.map (·.name)).Nodup) {item : ConstItem} (hitem : item ∈ items) :
    ∃ info, infos.find? (·.name == item.name) = some info ∧ info.Describes s item := by
  induction h with
  | nil => cases hitem
  | @cons first info items infos hfirst hrest ih =>
    rw [List.map_cons, List.nodup_cons] at hdistinct
    rcases List.mem_cons.mp hitem with rfl | hitem
    · refine ⟨info, List.find?_cons_of_pos ?_, hfirst⟩
      exact beq_iff_eq.mpr hfirst.1
    · rw [List.find?_cons_of_neg]
      · exact ih hdistinct.2 hitem
      · intro hsame
        refine hdistinct.1 (List.mem_map.mpr ⟨item, hitem, ?_⟩)
        rw [← hfirst.1, eq_of_beq hsame]

/-- Of distinct constants, what is reported for one is the value of its own initialiser. -/
theorem constantValue?_of_mem (h : buildClass f imports (.classLike decl) .compiled = .ok c)
    (hdistinct : ((localConstants decl.members).map (·.name)).Nodup) {item : ConstItem}
    (hitem : item ∈ localConstants decl.members) :
    ∃ value, c.constantValue? item.name = some value ∧
      eval (bodyScope f imports decl) item.value = .ok value := by
  obtain ⟨info, hfound, -, hvalue⟩ :=
    find?_of_describes (parts_of_buildClass h).1 hdistinct hitem
  refine ⟨info.value, ?_, hvalue⟩
  rw [ClassReflection.constantValue?, ClassReflection.constant?, hfound]
  rfl

theorem default?_buildMethod {s : Scope} {method : Function} {position : Nat} {item : ConstItem}
    {e : Expr} (h : OwnDefault s method.params position item e) (kind : ClassKind)
    (modifiers : List Modifier) :
    (buildMethod f s kind modifiers method).default? position =
      some (defaultOf s e (eval (s.inFunction method.name) e)) := by
  cases h with
  | intro hparam hdefault _ _ =>
    simp only [MethodInfo.default?, buildMethod, buildParameters, List.getElem?_mapIdx, hparam,
      hdefault, Option.map_some, Option.bind_some]
    rfl

end Reported

/-- A reference to a constant of the class is evaluated through its initialiser, in the class and in
its methods. -/
theorem evalDepth_of_ownDefault {s : Scope} {params : List Param} {position : Nat}
    {item : ConstItem} {e : Expr} (h : OwnDefault s params position item e)
    (hinside : s.selfClass.isSome) (hclass : Name.sameLetters item.name "class" = false)
    (hlocal : s.local? item.name = some item.value) (name : String) (depth : Nat) :
    evalDepth (s.inFunction name) (depth + 1) e =
      evalDepth (s.inFunction name) depth item.value := by
  cases h with
  | @intro _ span scope selector _ _ hself hname =>
    have hown : (s.inFunction name).ownName? scope selector = some item.name := by
      rw [← hname] at hclass ⊢
      exact ownName?_of_meansSelf hinside hself hclass
    refine evalDepth_own hown ?_ span
    have hlocals : (s.inFunction name).local? item.name = some item.value := hlocal
    rw [Scope.follow, hlocals]
    rfl

/-- Evaluation of a reference to a constant of the class evaluates its initialiser. -/
theorem reaches_of_ownDefault {s : Scope} {params : List Param} {position : Nat}
    {item : ConstItem} {e : Expr} (h : OwnDefault s params position item e)
    (hinside : s.selfClass.isSome) (hclass : Name.sameLetters item.name "class" = false)
    (hlocal : s.local? item.name = some item.value) {depth left : Nat} {x : Expr}
    (hx : Reaches s depth item.value left x) : Reaches s (depth + 1) e left x := by
  cases h with
  | @intro _ span scope selector _ _ hself hname =>
    have hown : s.ownName? scope selector = some item.name := by
      rw [← hname] at hclass ⊢
      exact ownName?_of_meansSelf hinside hself hclass
    exact .link ⟨span, scope, selector, .refl, hown⟩ hlocal hx

/-- The default of a parameter that refers to a constant of the class is what the initialiser of the
constant comes to in the method. That is the value reported for the constant, unless evaluation of
the default asks for the function or method around it. -/
theorem own_default_reads_initialiser {f : FileScope} {imports : Imports} {decl : ClassDecl}
    {c : ClassReflection} (hbuild : buildClass f imports (.classLike decl) .compiled = .ok c)
    (hdistinct : ((localConstants decl.members).map (·.name)).Nodup) {item : ConstItem}
    (hitem : item ∈ localConstants decl.members)
    (hclass : Name.sameLetters item.name "class" = false)
    (hchains : ChainsWithin (bodyScope f imports decl) (maxSelfDepth - 1) item.value)
    {modifiers : List Modifier} {method : Function}
    (hmethod : .method modifiers method ∈ decl.members)
    {position : Nat} {e : Expr}
    (hdefault : OwnDefault (bodyScope f imports decl) method.params position item e) :
    let s := bodyScope f imports decl
    let built := buildMethod f s decl.kind modifiers method
    built ∈ c.methods ∧
      built.default? position = some (defaultOf s e
        (evalDepth (s.inFunction method.name) (maxSelfDepth - 1) item.value)) ∧
      ∃ value, c.constantValue? item.name = some value ∧
        ((∀ left x, Reaches s maxSelfDepth e left x → s.namesFunction x = false) →
          built.default? position = some value) := by
  intro s built
  have hlocal : s.local? item.name = some item.value := local?_of_mem hdistinct hitem
  obtain ⟨value, hreported, hvalue⟩ := constantValue?_of_mem hbuild hdistinct hitem
  have hbuilt : built.default? position =
      some (defaultOf s e
        (evalDepth (s.inFunction method.name) (maxSelfDepth - 1) item.value)) := by
    rw [← evalDepth_of_ownDefault hdefault rfl hclass hlocal]
    exact default?_buildMethod hdefault decl.kind modifiers
  refine ⟨(parts_of_buildClass hbuild).2 modifiers method hmethod, hbuilt, value, hreported, ?_⟩
  intro hnames
  have hinner : evalDepth (s.inFunction method.name) (maxSelfDepth - 1) item.value =
      evalDepth s (maxSelfDepth - 1) item.value :=
    evalDepth_inFunction fun left x hx =>
      hnames left x (reaches_of_ownDefault hdefault rfl hclass hlocal hx)
  rw [hbuilt, hinner, evalDepth_eq_eval hchains (Nat.le_refl _) (Nat.sub_le _ _), hvalue]
  rfl

/-- A method `m` with one parameter, which has this default. -/
def methodDefaulting (default : Expr) : Function where
  span := ⟨0, 0⟩
  attributes := []
  name := "m"
  params := [⟨[], [], none, false, false, false, "$p", some default, []⟩]
  uses := []
  returnType := none
  body := []

/-- The class `D` with these constants and such a method. -/
def classDefaulting (items : List ConstItem) (default : Expr) : ClassDecl :=
  { classWith items with
    members := (classWith items).members ++ [.method [] (methodDefaulting default)] }

/-- The default of `m` is the value of `B = [self::A]`, which is written `static::B` there. -/
theorem own_default_reads_initialiser_linked :
    ∃ c, buildClass blankFile (.empty (some "N"))
        (.classLike (classDefaulting [linkedA, linkedB] (classConstantOf "static" "B")))
        .compiled = .ok c ∧
      ∃ value, c.constantValue? "B" = some value ∧
        ∃ built ∈ c.methods, built.default? 0 = some value := by
  obtain ⟨c, hbuild⟩ : ∃ c, buildClass blankFile (.empty (some "N"))
      (.classLike (classDefaulting [linkedA, linkedB] (classConstantOf "static" "B")))
      .compiled = .ok c := ⟨_, rfl⟩
  generalize hs : bodyScope blankFile (.empty (some "N"))
    (classDefaulting [linkedA, linkedB] (classConstantOf "static" "B")) = s
  have hrank : ∀ item ∈ s.locals, ∀ other ∈ item.value.ownNames s,
      ["A", "B"].idxOf other < ["A", "B"].idxOf item.name := by
    subst hs
    decide +kernel
  have hnames : ∀ item ∈ s.locals, ∀ tip ∈ item.value.tips, s.namesFunction tip = false := by
    subst hs
    decide +kernel
  have hchains : ChainsWithin s (maxSelfDepth - 1) linkedB.value := by
    intro names hnames
    refine length_le_of_rank hrank hnames ?_
    subst hs
    decide +kernel
  subst hs
  obtain ⟨hmember, -, value, hreported, hdefault⟩ := own_default_reads_initialiser hbuild
    (by decide) (by simp [classDefaulting, classWith, localConstants] : linkedB ∈ _) (by decide)
    hchains (by simp [classDefaulting, classWith] :
      Member.method [] (methodDefaulting (classConstantOf "static" "B")) ∈ _)
    (.intro rfl rfl (.inr (.inl (by decide))) (by decide) : OwnDefault _ _ 0 _ _)
  refine ⟨c, hbuild, value, hreported, _, hmember, hdefault fun left x hx => ?_⟩
  exact namesFunction_of_reaches hnames hx (by decide +kernel)

/-- The constant `X = __FUNCTION__`. -/
def aroundX : ConstItem := ⟨"X", .leaf ⟨0, 0⟩ .name "__FUNCTION__"⟩

/-- A constant that asks for the function around it has another value as a default than in its
class. -/
theorem own_default_differs_in_function :
    ¬ ∀ (f : FileScope) (imports : Imports) (decl : ClassDecl) (c : ClassReflection),
      buildClass f imports (.classLike decl) .compiled = .ok c →
      ((localConstants decl.members).map (·.name)).Nodup →
      ∀ item ∈ localConstants decl.members,
        ChainsWithin (bodyScope f imports decl) (maxSelfDepth - 1) item.value →
        ∀ modifiers method, .method modifiers method ∈ decl.members →
          ∀ position e, OwnDefault (bodyScope f imports decl) method.params position item e →
            (buildMethod f (bodyScope f imports decl) decl.kind modifiers method).default?
              position = c.constantValue? item.name := by
  intro h
  obtain ⟨c, hbuild, hreported⟩ : ∃ c, buildClass blankFile (.empty none)
      (.classLike (classDefaulting [aroundX] (classConstantOf "self" "X"))) .compiled = .ok c ∧
        c.constantValue? aroundX.name = some (.string "") := ⟨_, rfl, rfl⟩
  have hrank : ∀ item ∈ (bodyScope blankFile (.empty none)
      (classDefaulting [aroundX] (classConstantOf "self" "X"))).locals, ∀ other ∈
        item.value.ownNames (bodyScope blankFile (.empty none)
          (classDefaulting [aroundX] (classConstantOf "self" "X"))), 0 < 0 := by
    decide +kernel
  have hsame := h blankFile (.empty none) (classDefaulting [aroundX] (classConstantOf "self" "X")) c
    hbuild (by decide) aroundX (by simp [classDefaulting, classWith, localConstants])
    (fun names hnames => length_le_of_rank hrank hnames (by decide +kernel)) []
    (methodDefaulting (classConstantOf "self" "X")) (by simp [classDefaulting, classWith]) 0 _
    (.intro rfl rfl (.inl (by decide)) (by decide))
  have hdefault : (buildMethod blankFile (bodyScope blankFile (.empty none)
      (classDefaulting [aroundX] (classConstantOf "self" "X"))) .classDecl []
        (methodDefaulting (classConstantOf "self" "X"))).default? 0 = some (.string "m") := rfl
  have hdiffer := hsame.symm.trans hdefault
  rw [hreported] at hdiffer
  simp at hdiffer

end StaticReflection
