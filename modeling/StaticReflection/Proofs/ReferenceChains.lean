import StaticReflection.Proofs.BareConstants
import StaticReflection.Proofs.RepeatedAnswers

/-!
Chains of references. The value of a constant may refer to another constant or to a class constant,
which may refer to a third one, and so on. Every chain is followed to its end, to a reference that
leads nowhere, or until it is too long. Too long is a chain of as many references as the limit says:
the last step is the one that sees that the end is reached. A chain that comes back to a reference
it has passed goes round for ever, because what was answered once is answered again; so it is too
long as well.
-/

namespace StaticReflection

/-- Whether a value stands for that of a constant or of a class constant. -/
def Value.isReference : Value → Bool
  | .constant _ | .classConstant .. => true
  | _ => false

/-- What is known is no reference. -/
theorem Value.isReference_of_isResolved {v : Value} (h : v.isResolved = true) :
    v.isReference = false := by
  cases v with
  | constant | classConstant =>
    rw [isResolved] at h
    cases h
  | null | bool | int | float | string | array | unresolved => rfl

namespace Reflectors

/-- The value that a reference stands for. Other values stand for themselves. -/
def target (r : Reflectors) : Value → Lookup Value
  | .constant name => r.constantValue name
  | .classConstant scope name => r.classConstantValue scope name
  | v => pure v

/-- The value that following references begins with. A constant that was not evaluated is looked up
again. -/
def firstValue (r : Reflectors) (c : ConstantReflection) : Lookup Value :=
  match c.value with
  | some v => pure v
  | none => r.constantValue c.name

/-- So many references lead from one value to another, each of them looked up in the session that
the one before has left. -/
inductive Links (r : Reflectors) : Nat → Value → Session → Value → Session → Prop
  | nil (v : Value) (s : Session) : Links r 0 v s v s
  | cons {n : Nat} {v u w : Value} {s s' t : Session} (hv : v.isReference = true)
      (hlink : (r.target v).start s = (.ok u, s')) (rest : Links r n u s' w t) :
      Links r (n + 1) v s w t

variable {r : Reflectors}

theorem follow_succ_of_isReference {v : Value} (hv : v.isReference = true) (steps : Nat) :
    r.follow (steps + 1) v = r.target v >>= r.follow steps := by
  cases v with
  | constant | classConstant => rfl
  | null | bool | int | float | string | array | unresolved => cases hv

theorem follow_succ_of_not_isReference {v : Value} (hv : v.isReference = false) (steps : Nat) :
    r.follow (steps + 1) v = pure (some v) := by
  cases v with
  | constant | classConstant => cases hv
  | null | bool | int | float | string | array | unresolved => rfl

theorem repeats_target (v : Value) : (r.target v).Repeats id (r.target v) := by
  cases v with
  | constant name => exact r.repeats_constantValue name
  | classConstant scope name => exact r.repeats_classConstantValue scope name
  | null | bool | int | float | string | array | unresolved => exact Lookup.repeats_pure rfl

namespace Links

variable {m n : Nat} {v u w : Value} {s s' t t' : Session}

theorem append (h : r.Links m v s u s') (h' : r.Links n u s' w t) : r.Links (m + n) v s w t := by
  induction h with
  | nil => rwa [Nat.zero_add]
  | @cons m _ _ _ _ _ _ hv hlink _ ih =>
    rw [Nat.succ_add]
    exact .cons hv hlink (ih h')

theorem split (h : r.Links (m + n) v s w t) :
    ∃ u s', r.Links m v s u s' ∧ r.Links n u s' w t := by
  induction m generalizing v s with
  | zero =>
    rw [Nat.zero_add] at h
    exact ⟨v, s, .nil v s, h⟩
  | succ m ih =>
    rw [Nat.succ_add] at h
    cases h with
    | cons hv hlink rest =>
      obtain ⟨u, s', hfirst, hlast⟩ := ih rest
      exact ⟨u, s', .cons hv hlink hfirst, hlast⟩

theorem extends_session (h : r.Links n v s w t) : s.Extends t := by
  induction h with
  | nil => exact .refl _
  | @cons _ v _ _ s _ _ _ hlink _ ih =>
    have hfirst := (repeats_target (r := r) v).1 s
    rw [hlink] at hfirst
    exact hfirst.trans ih

/-- The links of a chain are there in any later session. -/
theorem again (h : r.Links n v s w t) (hlater : t.Extends s') :
    ∃ t', r.Links n v s' w t' ∧ s'.Extends t' := by
  induction h generalizing s' with
  | nil v => exact ⟨s', .nil v s', .refl s'⟩
  | @cons n v u w s mid t hv hlink rest ih =>
    -- The first link is followed again, and leaves a session behind that is later still.
    obtain ⟨u', hu', hsame, hmid⟩ := (repeats_target (r := r) v).2 s u (by rw [hlink]) s'
      (by rw [hlink]; exact rest.extends_session.trans hlater)
    obtain rfl : u' = u := hsame
    obtain ⟨t', hrest, hlast⟩ := ih (hlater.trans hmid)
    exact ⟨t', .cons hv (Prod.ext hu' rfl) hrest, hmid.trans hlast⟩

/-- A chain that comes back to where it began goes round as often as one likes. -/
theorem rounds (h : r.Links n v s v t) (k : Nat) :
    ∃ t', r.Links ((k + 1) * n) v s v t' ∧ t.Extends t' := by
  induction k with
  | zero =>
    rw [Nat.zero_add, Nat.one_mul]
    exact ⟨t, h, .refl t⟩
  | succ k ih =>
    obtain ⟨last, hlinks, hlast⟩ := ih
    obtain ⟨t', hround, hlater⟩ := h.again hlast
    rw [Nat.succ_mul]
    exact ⟨t', hlinks.append hround, hlast.trans hlater⟩

/-- Following references goes along the links of a chain. -/
theorem start_follow (h : r.Links n v s w t) (steps : Nat) :
    (r.follow (n + steps) v).start s = (r.follow steps w).start t := by
  induction h with
  | nil => rw [Nat.zero_add]
  | cons hv hlink _ ih =>
    rw [Nat.succ_add, follow_succ_of_isReference hv, Lookup.start_bind, hlink]
    exact ih

/-- A chain that has an end before the limit is followed to it. -/
theorem follow_of_lt (h : r.Links n v s w t) (hw : w.isReference = false) {limit : Nat}
    (hn : n < limit) : (r.follow limit v).start s = (.ok (some w), t) := by
  obtain ⟨rest, rfl⟩ := Nat.exists_eq_add_of_lt hn
  rw [Nat.add_assoc, h.start_follow, follow_succ_of_not_isReference hw]
  rfl

/-- A chain that reaches the limit is given up there. -/
theorem follow_of_le (h : r.Links n v s w t) {limit : Nat} (hn : limit ≤ n) :
    ((r.follow limit v).start s).1 = .ok none := by
  obtain ⟨rest, rfl⟩ := Nat.exists_eq_add_of_le hn
  obtain ⟨u, s', hfirst, -⟩ := h.split
  have hfollow := hfirst.start_follow 0
  rw [Nat.add_zero] at hfollow
  rw [hfollow]
  rfl

end Links

/-- How following references from a value may end, where only so many are followed. -/
inductive Ends (r : Reflectors) (limit : Nat) (v : Value) (s : Session) :
    Except Error (Option Value) × Session → Prop
  /-- The chain has an end before the limit. -/
  | value (n : Nat) (w : Value) (t : Session) (hn : n < limit) (hlinks : r.Links n v s w t)
      (hw : w.isReference = false) : Ends r limit v s (.ok (some w), t)
  /-- The chain has as many links as the limit says. -/
  | tooLong (w : Value) (t : Session) (hlinks : r.Links limit v s w t) :
      Ends r limit v s (.ok none, t)
  /-- What a reference of the chain stands for cannot be told. -/
  | fails (n : Nat) (w : Value) (t : Session) (hn : n < limit) (hlinks : r.Links n v s w t)
      (hw : w.isReference = true) (e : Error) (u : Session)
      (herror : (r.target w).start t = (.error e, u)) : Ends r limit v s (.error e, u)

theorem Ends.cons {limit : Nat} {v u : Value} {s t : Session}
    {outcome : Except Error (Option Value) × Session} (hv : v.isReference = true)
    (hlink : (r.target v).start s = (.ok u, t)) (h : r.Ends limit u t outcome) :
    r.Ends (limit + 1) v s outcome := by
  cases h with
  | value n w t' hn hlinks hw =>
    exact .value (n + 1) w t' (Nat.succ_lt_succ hn) (.cons hv hlink hlinks) hw
  | tooLong w t' hlinks => exact .tooLong w t' (.cons hv hlink hlinks)
  | fails n w t' hn hlinks hw e u' herror =>
    exact .fails (n + 1) w t' (Nat.succ_lt_succ hn) (.cons hv hlink hlinks) hw e u' herror

/-- Following references always ends, in one of these ways. -/
theorem ends_follow (r : Reflectors) (limit : Nat) (v : Value) (s : Session) :
    r.Ends limit v s ((r.follow limit v).start s) := by
  induction limit generalizing v s with
  | zero => exact .tooLong v s (.nil v s)
  | succ limit ih =>
    cases hv : v.isReference with
    | false =>
      rw [follow_succ_of_not_isReference hv]
      exact .value 0 v s (Nat.succ_pos limit) (.nil v s) hv
    | true =>
      rw [follow_succ_of_isReference hv, Lookup.start_bind]
      rcases hlink : (r.target v).start s with ⟨e | u, t⟩
      · exact .fails 0 v s (Nat.succ_pos limit) (.nil v s) hv e t hlink
      · exact (ih u t).cons hv hlink

/-- An outcome is that of following a chain of references from the value of a constant. -/
structure FollowsChain (r : Reflectors) (c : ConstantReflection) (v : Value) (s : Session)
    (outcome : Except Error Value × Session) : Prop where
  /-- Following ends, and the text of the value takes the place of one that is not found. -/
  ends : ∃ ended, r.Ends maxReferences v s ended ∧
    outcome = (ended.1.map (·.getD (.unresolved c.valueText)), ended.2)
  /-- Where the chain ends before the limit, the value at the end is found. -/
  short : ∀ n w t, r.Links n v s w t → w.isReference = false → n < maxReferences →
    outcome = (.ok w, t)
  /-- A chain that reaches the limit leaves the text of the value. -/
  long : ∀ n w t, r.Links n v s w t → maxReferences ≤ n → outcome.1 = .ok (.unresolved c.valueText)
  /-- So does a chain that comes back, by one or more references, to a value it has passed. -/
  cyclic : ∀ i n u t t', r.Links i v s u t → r.Links (n + 1) u t u t' →
    outcome.1 = .ok (.unresolved c.valueText)

theorem start_resolveValue_of_firstValue {c : ConstantReflection} {v : Value} {s s₀ : Session}
    (h : (r.firstValue c).start s = (.ok v, s₀)) :
    (r.resolveValue c).start s =
      (((r.follow maxReferences v).start s₀).1.map (·.getD (.unresolved c.valueText)),
        ((r.follow maxReferences v).start s₀).2) := by
  have hparts : r.resolveValue c = r.firstValue c >>= fun first =>
      (·.getD (.unresolved c.valueText)) <$> r.follow maxReferences first := by
    unfold resolveValue firstValue
    cases c.value <;> simp only [map_eq_pure_bind]
  rw [hparts, Lookup.start_bind, h]
  exact Lookup.start_map _ _ s₀

/-- The value of a constant is at the end of the chain of references that begins with it, if the
chain has an end and fewer links than the limit. Longer chains and those that have no end leave the
text that was written for the value. -/
theorem followsChain_resolveValue (r : Reflectors) (c : ConstantReflection) {s s₀ : Session}
    {v : Value} (hfirst : (r.firstValue c).start s = (.ok v, s₀)) :
    r.FollowsChain c v s₀ ((r.resolveValue c).start s) := by
  rw [start_resolveValue_of_firstValue hfirst]
  have hlong : ∀ n w t, r.Links n v s₀ w t → maxReferences ≤ n →
      ((r.follow maxReferences v).start s₀).1.map (·.getD (.unresolved c.valueText)) =
        .ok (.unresolved c.valueText) := by
    intro n w t hlinks hn
    rw [hlinks.follow_of_le hn]
    rfl
  refine ⟨⟨_, r.ends_follow maxReferences v s₀, rfl⟩, ?_, hlong, ?_⟩
  · intro n w t hlinks hw hn
    rw [hlinks.follow_of_lt hw hn]
    rfl
  · -- One round has a link at least, so more rounds than the limit have more links than it.
    intro i n u t t' hlinks hcircle
    obtain ⟨last, hrounds, -⟩ := hcircle.rounds maxReferences
    refine hlong _ u last (hlinks.append hrounds) ?_
    calc maxReferences ≤ maxReferences + 1 := Nat.le_succ _
      _ ≤ (maxReferences + 1) * (n + 1) := Nat.le_mul_of_pos_right _ (Nat.succ_pos n)
      _ ≤ i + (maxReferences + 1) * (n + 1) := Nat.le_add_left _ _

/-- A reference that looks like another is the same. -/
theorem eq_of_same_reference {v w : Value} (hw : w.isReference = true) (h : v.same w = true) :
    v = w := by
  cases w with
  | constant name => cases v <;> simp_all [Value.same]
  | classConstant scope name => cases v <;> simp_all [Value.same]
  | null | bool | int | float | string | array | unresolved => cases hw

/-- The value that so many references lead to, unless the chain has an end before. -/
def walk (r : Reflectors) : Nat → Value → Lookup (Option Value)
  | 0, v => pure (some v)
  | n + 1, v => if v.isReference then do r.walk n (← r.target v) else pure none

theorem links_of_walk {n : Nat} {v w : Value} {s t : Session}
    (h : (r.walk n v).start s = (.ok (some w), t)) : r.Links n v s w t := by
  induction n generalizing v s with
  | zero =>
    cases h
    exact .nil _ _
  | succ n ih =>
    rw [walk] at h
    split at h
    · rename_i hv
      obtain ⟨u, s', hlink, hrest⟩ := Lookup.start_bind_eq_ok.mp h
      exact .cons hv hlink (ih hrest)
    · cases h

/-- A walk to a value that passes a test goes along a chain to that value. -/
theorem exists_links_of_walk (r : Reflectors) (n : Nat) (v : Value) (s : Session)
    (test : Value → Bool)
    (h : ((r.walk n v).start s).1.toOption.any (·.any test) = true) :
    ∃ w t, r.Links n v s w t ∧ test w = true := by
  obtain ⟨ended, hwalk, hended⟩ := Lookup.exists_of_any h
  obtain ⟨w, rfl, hw⟩ := (Option.any_eq_true _ _).mp hended
  exact ⟨w, _, links_of_walk hwalk, hw⟩

/-- Reflectors over a text with a chain of references, and with two constants that refer to each
other. -/
def aliases : Reflectors :=
  ⟨.text "<?php class L\x7bconst MAX=20;\x7dconst TOP=L::MAX,ALIAS=TOP,X=Y,Y=X;", .compiled,
    .standard, true⟩

/-- A constant that is declared by the name of another. -/
def declaredBy (name target : String) : ConstantReflection :=
  ⟨name, some (.constant target), target, false, ⟨1, 1, 1, 1⟩, .user "" none⟩

theorem followsChain_resolveValue_aliases :
    (∃ w t, aliases.Links 2 (.constant "TOP") (.start .empty) w t ∧ w.exported = "20" ∧
      (aliases.resolveValue (declaredBy "ALIAS" "TOP")).start (.start .empty) = (.ok w, t)) ∧
    ∃ t, aliases.Links 2 (.constant "Y") (.start .empty) (.constant "Y") t ∧
      ((aliases.resolveValue (declaredBy "X" "Y")).start (.start .empty)).1 =
        .ok (.unresolved "Y") := by
  constructor
  · obtain ⟨w, t, hlinks, hw⟩ := aliases.exists_links_of_walk 2 (.constant "TOP") (.start .empty)
      (fun w => !w.isReference && w.exported == "20") (by decide +kernel)
    rw [Bool.and_eq_true, Bool.not_eq_true'] at hw
    have hchain := followsChain_resolveValue aliases (declaredBy "ALIAS" "TOP")
      (s := .start .empty) rfl
    exact ⟨w, t, hlinks, eq_of_beq hw.2, hchain.short 2 w t hlinks hw.1 (by decide)⟩
  · obtain ⟨w, t, hlinks, hw⟩ := aliases.exists_links_of_walk 2 (.constant "Y") (.start .empty)
      (fun w => w.isReference && w.same (.constant "Y")) (by decide +kernel)
    obtain rfl := eq_of_same_reference rfl (Bool.and_eq_true _ _ ▸ hw).2
    have hchain := followsChain_resolveValue aliases (declaredBy "X" "Y") (s := .start .empty) rfl
    exact ⟨t, hlinks, hchain.cyclic 0 1 _ _ _ (.nil _ _) hlinks⟩

/-- Reflectors over a text of constants that each refer to the one before, from `g` back to `A`. -/
def letters : Reflectors :=
  ⟨.text ("<?php const A=1,B=A,C=B,D=C,E=D,F=E,G=F,H=G,I=H,J=I,K=J,L=K,M=L,N=M,O=N,P=O,Q=P,R=Q," ++
      "S=R,T=S,U=T,V=U,W=V,X=W,Y=X,Z=Y,a=Z,b=a,c=b,d=c,e=d,f=e,g=f;"), .compiled, .standard, true⟩

/-- A chain that is not longer than the limit can be too long. -/
theorem unresolved_at_maxReferences :
    ¬ ∀ (r : Reflectors) (name : String) (c : ConstantReflection) (v w : Value)
      (s s₀ t : Session) (n : Nat), (r.reflectConstant name).start s = (.ok c, s₀) →
      c.value = some v → r.Links n v s₀ w t → w.isReference = false → n ≤ maxReferences →
      ((r.resolveValue c).start s₀).1 = .ok w := by
  intro hclaim
  have hrun : ((letters.reflectConstant "g").start (.start .empty)).1.toOption.any (fun c =>
      c.value.any fun v => ((letters.walk maxReferences v).start
        ((letters.reflectConstant "g").start (.start .empty)).2).1.toOption.any
          (·.any (·.isResolved))) = true := by decide +kernel
  obtain ⟨c, hreflect, hc⟩ := Lookup.exists_of_any hrun
  obtain ⟨v, hv, hwalk⟩ := (Option.any_eq_true _ _).mp hc
  obtain ⟨w, t, hlinks, hw⟩ := letters.exists_links_of_walk _ v _ _ hwalk
  have hvalue := hclaim letters "g" c v w _ _ t _ hreflect hv hlinks
    (Value.isReference_of_isResolved hw) (Nat.le_refl _)
  rw [start_resolveValue hv, hlinks.follow_of_le (Nat.le_refl _)] at hvalue
  cases hvalue
  cases hw

end Reflectors

end StaticReflection
