import StaticReflection.Proofs.PartlyKnownArrays
import StaticReflection.Proofs.ReferenceChains

/-!
References inside arrays. An array may hold references in its keys and in its values, and these may
lead to arrays that hold others. Following references stops at the first array: it is the value that
is found, with all its references in it. So the value of a constant need not be known in full, even
if every reference there is leads to a value within the limit.
-/

namespace StaticReflection

namespace Value

mutual

/-- The references in a value, in keys and values of arrays at any depth. -/
def references : Value → List Value
  | .constant name => [.constant name]
  | .classConstant scope name => [.classConstant scope name]
  | .array items => referencesIn items
  | .null | .bool _ | .int _ | .float _ | .string _ | .unresolved _ => []

def referencesIn : List (Value × Value) → List Value
  | [] => []
  | (key, value) :: rest => key.references ++ value.references ++ referencesIn rest

end

theorem references_of_isReference {v : Value} (h : v.isReference = true) : v.references = [v] := by
  cases v with
  | constant | classConstant => rw [references]
  | null | bool | int | float | string | array | unresolved => cases h

theorem isResolved_of_isReference {v : Value} (h : v.isReference = true) :
    v.isResolved = false := by
  cases hv : v.isResolved with
  | false => rfl
  | true =>
    rw [isReference_of_isResolved hv] at h
    cases h

theorem mem_referencesIn {items : List (Value × Value)} {u : Value} :
    u ∈ referencesIn items ↔
      ∃ item ∈ items, u ∈ item.1.references ∨ u ∈ item.2.references := by
  induction items with
  | nil => simp [referencesIn]
  | cons item rest ih => simp [referencesIn, ih, or_assoc]

theorem referencesIn_eq_nil_iff {items : List (Value × Value)} :
    referencesIn items = [] ↔
      ∀ item ∈ items, item.1.references = [] ∧ item.2.references = [] := by
  induction items with
  | nil => simp [referencesIn]
  | cons item rest ih => simp [referencesIn, ih, and_assoc]

mutual

/-- There are no references in a value that is known. -/
theorem references_of_isResolved {v : Value} (h : v.isResolved = true) : v.references = [] := by
  cases v with
  | array items =>
    rw [isResolved] at h
    rw [references]
    exact referencesIn_of_allResolved h
  | constant | classConstant | unresolved =>
    rw [isResolved] at h
    cases h
  | null | bool | int | float | string => rw [references]

theorem referencesIn_of_allResolved {items : List (Value × Value)} (h : allResolved items = true) :
    referencesIn items = [] := by
  match items with
  | [] => rw [referencesIn]
  | (key, value) :: rest =>
    rw [allResolved, Bool.and_eq_true, Bool.and_eq_true] at h
    obtain ⟨⟨hkey, hvalue⟩, hrest⟩ := h
    rw [referencesIn, references_of_isResolved hkey, references_of_isResolved hvalue,
      referencesIn_of_allResolved hrest]
    rfl

end

end Value

namespace Reflectors

/-- A value that is built from known ones, arrays, and references that lead to such a value again,
by fewer links than the limit. -/
inductive Grounded (r : Reflectors) : Session → Value → Prop
  | known {s : Session} {v : Value} (h : v.isResolved = true) : Grounded r s v
  | array {s : Session} {items : List (Value × Value)}
      (keys : ∀ item ∈ items, Grounded r s item.1)
      (values : ∀ item ∈ items, Grounded r s item.2) : Grounded r s (.array items)
  | reference {n : Nat} {v w : Value} {s t : Session} (hv : v.isReference = true)
      (hn : n < maxReferences) (hlinks : r.Links n v s w t) (hw : w.isReference = false)
      (ground : Grounded r t w) : Grounded r s v

namespace Grounded

variable {r : Reflectors} {s : Session} {v : Value}

/-- Only references keep such a value from being known. -/
theorem isResolved_iff (h : r.Grounded s v) : v.isResolved = true ↔ v.references = [] := by
  induction h with
  | known h => exact iff_of_true h (Value.references_of_isResolved h)
  | array _ _ ihKeys ihValues =>
    rw [Value.isResolved, Value.references, Value.allResolved_iff, Value.referencesIn_eq_nil_iff]
    constructor
    · intro h item hitem
      exact ⟨(ihKeys item hitem).mp (h item hitem).1, (ihValues item hitem).mp (h item hitem).2⟩
    · intro h item hitem
      exact ⟨(ihKeys item hitem).mpr (h item hitem).1, (ihValues item hitem).mpr (h item hitem).2⟩
  | reference hv =>
    rw [Value.isResolved_of_isReference hv, Value.references_of_isReference hv]
    simp

/-- The references in such a value are grounded themselves. -/
theorem of_mem_references (h : r.Grounded s v) {u : Value} (hu : u ∈ v.references) :
    r.Grounded s u := by
  induction h with
  | known h =>
    rw [Value.references_of_isResolved h] at hu
    cases hu
  | array _ _ ihKeys ihValues =>
    rw [Value.references, Value.mem_referencesIn] at hu
    obtain ⟨item, hitem, hkey | hvalue⟩ := hu
    · exact ihKeys item hitem hkey
    · exact ihValues item hitem hvalue
  | reference hv hn hlinks hw ground =>
    rw [Value.references_of_isReference hv, List.mem_singleton] at hu
    subst hu
    exact .reference hv hn hlinks hw ground

/-- References that start with such a value come to an end, at such a value. -/
theorem exists_end (h : r.Grounded s v) :
    ∃ n w t, n < maxReferences ∧ r.Links n v s w t ∧ w.isReference = false ∧ r.Grounded t w := by
  cases h with
  | known h =>
    exact ⟨0, v, s, by decide, .nil v s, Value.isReference_of_isResolved h, .known h⟩
  | array keys values => exact ⟨0, _, s, by decide, .nil _ s, rfl, .array keys values⟩
  | reference hv hn hlinks hw ground => exact ⟨_, _, _, hn, hlinks, hw, ground⟩

end Grounded

/-- The value of a constant that is built from known values, arrays and references is found by
following its first references only. It is known if it holds no others. Those that it holds are left
in it, although each leads to a value within the limit. -/
theorem resolveValue_of_grounded (r : Reflectors) (c : ConstantReflection) {s : Session} {v : Value}
    (hvalue : c.value = some v) (h : r.Grounded s v) :
    ∃ n w t, n < maxReferences ∧ r.Links n v s w t ∧ w.isReference = false ∧
      (r.resolveValue c).start s = (.ok w, t) ∧ (w.isResolved = true ↔ w.references = []) ∧
      ∀ u ∈ w.references, ∃ m e t', m < maxReferences ∧ r.Links m u t e t' ∧
        e.isReference = false := by
  obtain ⟨n, w, t, hn, hlinks, hw, ground⟩ := h.exists_end
  refine ⟨n, w, t, hn, hlinks, hw, ?_, ground.isResolved_iff, fun u hu => ?_⟩
  · rw [start_resolveValue hvalue, hlinks.follow_of_lt hw hn]
    rfl
  · obtain ⟨m, e, t', hm, hinner, he, -⟩ := (ground.of_mem_references hu).exists_end
    exact ⟨m, e, t', hm, hinner, he⟩

/-- Reflectors over a text in which an array holds a reference. -/
def nested : Reflectors :=
  ⟨.text "<?php const B=1;const A=[B];", .compiled, .standard, true⟩

/-- An array of one reference is grounded if that leads to a known value at once. -/
theorem grounded_singleton (r : Reflectors) (key : Value) (name : String) {s : Session}
    (hkey : key.isResolved = true)
    (hwalk : ((r.walk 1 (.constant name)).start s).1.toOption.any
      (·.any (·.isResolved)) = true) :
    r.Grounded s (.array [(key, .constant name)]) := by
  obtain ⟨w, t, hlinks, hw⟩ := r.exists_links_of_walk 1 _ s _ hwalk
  have hvalue : r.Grounded s (.constant name) :=
    .reference rfl (by decide) hlinks (Value.isReference_of_isResolved hw) (.known hw)
  exact .array (fun item hitem => List.mem_singleton.mp hitem ▸ .known hkey)
    (fun item hitem => List.mem_singleton.mp hitem ▸ hvalue)

theorem resolveValue_of_grounded_nested :
    nested.Grounded (.start .empty) (.array [(.int 0, .constant "B")]) ∧
    ∃ n w t, n < maxReferences ∧
      nested.Links n (.array [(.int 0, .constant "B")]) (.start .empty) w t ∧
      w.isReference = false ∧
      (nested.resolveValue ⟨"A", some (.array [(.int 0, .constant "B")]), "[B]", false,
        ⟨1, 1, 24, 26⟩, .user "" none⟩).start (.start .empty) = (.ok w, t) ∧
      (w.isResolved = true ↔ w.references = []) ∧
      ∀ u ∈ w.references, ∃ m e t', m < maxReferences ∧ nested.Links m u t e t' ∧
        e.isReference = false := by
  have hground := nested.grounded_singleton (.int 0) "B" (s := .start .empty) rfl
    (by decide +kernel)
  exact ⟨hground, resolveValue_of_grounded nested _ rfl hground⟩

/-- The key and the name in an array of one reference to a constant. -/
def listedConstant? : Value → Option (Value × String)
  | .array [(key, .constant name)] => some (key, name)
  | _ => none

theorem eq_of_listedConstant? {v key : Value} {name : String}
    (h : listedConstant? v = some (key, name)) : v = .array [(key, .constant name)] := by
  unfold listedConstant? at h
  split at h
  · cases h
    rfl
  · cases h

/-- The reference in the array is not followed. -/
theorem unresolved_in_nested :
    ¬ ∀ (r : Reflectors) (name : String) (c : ConstantReflection) (v w : Value)
      (s s₀ t : Session), (r.reflectConstant name).start s = (.ok c, s₀) → c.value = some v →
      r.Grounded s₀ v → (r.resolveValue c).start s₀ = (.ok w, t) → w.isResolved = true := by
  intro hclaim
  have hrun : ((nested.reflectConstant "A").start (.start .empty)).1.toOption.any (fun c =>
      (c.value.bind listedConstant?).any fun entry =>
        entry.1.isResolved && entry.2 == "B") = true := by decide +kernel
  have hwalk : ((nested.walk 1 (.constant "B")).start
      ((nested.reflectConstant "A").start (.start .empty)).2).1.toOption.any
        (·.any (·.isResolved)) = true := by decide +kernel
  obtain ⟨c, hreflect, hc⟩ := Lookup.exists_of_any hrun
  obtain ⟨⟨key, name⟩, hentry, htest⟩ := (Option.any_eq_true _ _).mp hc
  obtain ⟨v, hv, hlisted⟩ := Option.bind_eq_some_iff.mp hentry
  obtain rfl := eq_of_listedConstant? hlisted
  rw [Bool.and_eq_true, beq_iff_eq] at htest
  obtain ⟨hkey, rfl⟩ := htest
  have hground := nested.grounded_singleton key _ hkey hwalk
  have hvalue := start_resolveValue (r := nested) hv
    ((nested.reflectConstant "A").start (.start .empty)).2
  have hknown := hclaim nested "A" c _ _ _ _ _ hreflect hv hground hvalue
  simp [Value.isResolved, Value.allResolved] at hknown

end Reflectors

end StaticReflection
