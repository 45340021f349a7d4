import Mathlib.Tactic.Push
import StaticReflection.Proofs.OrderedMaps
import StaticReflection.Proofs.PlainValues

/-!
Array literals. The array of a literal is the ordered map of its elements, with the keys as they are
written. Keys that are no integers and no strings, and strings that are the notation of an integer,
stand for other keys, those in normal form. The array is the one that the language means as long as
all keys are in normal form.
-/

namespace StaticReflection

open Syntax

namespace Value

/-! ### Keys in normal form -/

/-- The integer of which a string is the decimal notation, without anything else in front of it. -/
def canonicalInt? (s : String) : Option Int64 :=
  match Number.ofString? s false with
  | some (.int i) => if String.ofList (Number.intText i.toInt) = s then some i else none
  | _ => none

/-- The key that a value stands for. -/
def normalKey : Value → Value
  | .null => .string ""
  | .bool b => .int (if b then 1 else 0)
  | .string s =>
    match canonicalInt? s with
    | some i => .int i
    | none => .string s
  | key => key

/-- Simple values that stand for no negative integer. -/
structure IsPlainKey (key : Value) : Prop where
  isSimple : key.IsSimple
  nonneg : ∀ i, key.normalKey = .int i → 0 ≤ i.toInt

/-- A normal form is its own normal form. -/
theorem normalKey_normalKey (key : Value) : key.normalKey.normalKey = key.normalKey := by
  cases key with
  | string s =>
    cases hs : canonicalInt? s with
    | none => simp only [normalKey, hs]
    | some i => simp only [normalKey, hs]
  | null => rfl
  | _ => rfl

end Value

/-! ### Array literals -/

/-- What an element of an array literal comes to: a key and a value, a value without a key, or the
pairs of an array that are spread. -/
inductive ElementValue where
  | keyed (key value : Value)
  | bare (value : Value)
  | spread (items : List (Value × Value))

namespace ElementValue

inductive IsOf (s : Scope) (follow : String → Option (Except Error Value)) :
    ArrayElement → ElementValue → Prop
  | keyed {key value : Expr} {k v : Value} (hkey : evalWith s follow key = .ok k)
      (hvalue : evalWith s follow value = .ok v) : IsOf s follow (.pair key value) (.keyed k v)
  | bare {value : Expr} {v : Value} (hvalue : evalWith s follow value = .ok v) :
      IsOf s follow (.value value) (.bare v)
  | spread {value : Expr} {items : List (Value × Value)}
      (hvalue : evalWith s follow value = .ok (.array items)) :
      IsOf s follow (.spread value) (.spread items)

/-- Parts whose own keys are plain. Integer keys that are spread are given anew, so these may be
negative. -/
inductive Plain : ElementValue → Prop
  | keyed {key : Value} (value : Value) (hkey : key.IsPlainKey) : Plain (.keyed key value)
  | bare (value : Value) : Plain (.bare value)
  | spread {items : List (Value × Value)} (hkeys : ∀ item ∈ items, item.1.IsSimple) :
      Plain (.spread items)

def keys : ElementValue → List Value
  | .keyed key _ => [key]
  | .bare _ => []
  | .spread items => items.map (·.1)

/-- The elements of a part, with each key in some form. What is spread keeps its keys but for the
integers. -/
def entries (form : Value → Value) : ElementValue → List Entry
  | .keyed key value => [.keyed (form key) value]
  | .bare value => [.append value]
  | .spread items => items.map fun (key, value) =>
    match form key with
    | .int _ => .append value
    | key => .keyed key value

/-- The elements with their keys as they are written. -/
def written (parts : List ElementValue) : List Entry := parts.flatMap (entries id)

/-- The elements with their keys in normal form. -/
def normalised (parts : List ElementValue) : List Entry := parts.flatMap (entries Value.normalKey)

theorem evalElements_eq {s : Scope} {follow : String → Option (Except Error Value)}
    {elements : List ArrayElement} {parts : List ElementValue}
    (h : List.Forall₂ (IsOf s follow) elements parts) :
    evalElements s follow elements = .ok (written parts) := by
  induction h with
  | nil => rfl
  | cons hfirst _ ih =>
    cases hfirst with
    | keyed hkey hvalue =>
      rw [evalElements, hkey, hvalue, ih]
      rfl
    | bare hvalue =>
      rw [evalElements, hvalue, ih]
      rfl
    | spread hvalue =>
      rw [evalElements, hvalue, ih]
      rfl

/-- An element that is spread either has an integer key and loses it, or keeps its key. -/
theorem mem_entries_spread {form : Value → Value} {items : List (Value × Value)} {key value : Value}
    (h : Entry.keyed key value ∈ entries form (.spread items)) :
    (∃ item ∈ items, form item.1 = key) ∧ ∀ i, key ≠ .int i := by
  obtain ⟨⟨k, v⟩, hmem, hentry⟩ := List.mem_map.mp h
  simp only at hentry
  split at hentry
  · cases hentry
  · rename_i hother
    cases hentry
    exact ⟨⟨_, hmem, rfl⟩, hother⟩

theorem isPlainEntry_of_mem {part : ElementValue} (h : part.Plain) :
    ∀ entry ∈ part.entries id, ArrayBuilder.IsPlainEntry entry := by
  intro entry hentry
  cases h with
  | keyed value hkey =>
    obtain rfl := List.mem_singleton.mp hentry
    exact .keyed value hkey.isSimple fun i hi => hkey.nonneg i (congrArg Value.normalKey hi)
  | bare value =>
    obtain rfl := List.mem_singleton.mp hentry
    exact .append value
  | spread hkeys =>
    cases entry with
    | append value => exact .append value
    | keyed key value =>
      obtain ⟨⟨item, hitem, rfl⟩, hother⟩ := mem_entries_spread hentry
      exact .keyed value (hkeys item hitem) fun i hi => absurd hi (hother i)

/-- Keys in normal form take up at least as many integers. -/
theorem ahead_entries {part : ElementValue} (h : part.Plain) :
    List.Forall₂ ArrayBuilder.Ahead (part.entries id) (part.entries Value.normalKey) := by
  cases h with
  | @keyed key value hkey =>
    refine .cons ?_ .nil
    cases key with
    | int i => exact .int value (hkey.nonneg i rfl)
    | _ => exact .keyed value (fun _ h => by cases h) hkey.nonneg
  | bare value => exact .cons (.append value) .nil
  | @spread items hkeys =>
    rw [entries, entries, List.forall₂_map_left_iff, List.forall₂_map_right_iff, List.forall₂_same]
    rintro ⟨key, value⟩ hitem
    have hkey : key.IsSimple := hkeys _ hitem
    cases hkey with
    | null => exact .keyed value (fun _ h => by cases h) fun _ h => by cases h
    | bool b => exact .numbered value fun _ h => by cases h
    | int i => exact .append value
    | string s =>
      simp only [Value.normalKey, id]
      cases Value.canonicalInt? s with
      | none => exact .keyed value (fun _ h => by cases h) fun _ h => by cases h
      | some i => exact .numbered value fun _ h => by cases h

/-- A literal in which all keys are in normal form has the same elements with normal keys. -/
theorem normalised_eq_written {parts : List ElementValue}
    (h : ∀ part ∈ parts, ∀ key ∈ part.keys, key.normalKey = key) :
    normalised parts = written parts := by
  refine List.flatMap_congr fun part hpart => ?_
  have hkeys := h part hpart
  cases part with
  | keyed key value =>
    have hkey : key.normalKey = key := hkeys key List.mem_cons_self
    rw [entries, entries, hkey, id]
  | bare value => rfl
  | spread items =>
    refine List.map_congr_left fun item hitem => ?_
    have hkey : item.1.normalKey = item.1 := hkeys _ (List.mem_map_of_mem hitem)
    simp only [hkey, id]

/-- A key that is not in normal form is the key of an element. -/
theorem exists_keyed_of_ne {parts : List ElementValue} {part : ElementValue}
    (hpart : part ∈ parts) {key : Value} (hkey : key ∈ part.keys) (hne : key.normalKey ≠ key) :
    ∃ value, Entry.keyed key value ∈ written parts := by
  have hint : ∀ i, key ≠ .int i := by
    rintro i rfl
    exact hne rfl
  suffices hentry : ∃ value, Entry.keyed key value ∈ part.entries id by
    obtain ⟨value, hvalue⟩ := hentry
    exact ⟨value, List.mem_flatMap.mpr ⟨part, hpart, hvalue⟩⟩
  cases part with
  | keyed k value =>
    obtain rfl := List.mem_singleton.mp hkey
    exact ⟨value, List.mem_singleton.mpr rfl⟩
  | bare value => cases hkey
  | spread items =>
    obtain ⟨⟨k, value⟩, hitem, rfl⟩ := List.mem_map.mp hkey
    refine ⟨value, List.mem_map.mpr ⟨(k, value), hitem, ?_⟩⟩
    cases k with
    | int i => exact absurd rfl (hint i)
    | _ => rfl

/-- In an array whose keys are normalised, all keys are in normal form. -/
theorem normalKey_of_normalised {parts : List ElementValue} {all : List (Value × Value)}
    (h : ArrayBuilder.layOut [] (normalised parts) = some all) :
    ∀ pair ∈ all, pair.1.normalKey = pair.1 := by
  refine ArrayBuilder.forall_of_layOut (P := fun key => key.normalKey = key) (fun _ => rfl) h
    (fun _ hpair => absurd hpair List.not_mem_nil) fun key value hmem => ?_
  obtain ⟨part, -, hentry⟩ := List.mem_flatMap.mp hmem
  cases part with
  | keyed k v =>
    cases List.mem_singleton.mp hentry
    exact Value.normalKey_normalKey k
  | bare v => cases List.mem_singleton.mp hentry
  | spread items =>
    obtain ⟨⟨item, -, rfl⟩, -⟩ := mem_entries_spread hentry
    exact Value.normalKey_normalKey item.1

theorem forall₂_ahead {parts : List ElementValue} (h : ∀ part ∈ parts, part.Plain) :
    List.Forall₂ ArrayBuilder.Ahead (written parts) (normalised parts) := by
  induction parts with
  | nil => exact .nil
  | cons part rest ih =>
    rw [written, normalised, List.flatMap_cons, List.flatMap_cons]
    exact List.rel_append (ahead_entries (h part List.mem_cons_self))
      (ih fun other hother => h other (List.mem_cons_of_mem _ hother))

/-- Keys as they are written make the array with normal keys if they are normal themselves, and
where there is no array at all. -/
theorem laidOut?_written_iff {parts : List ElementValue} (h : ∀ part ∈ parts, part.Plain) :
    ArrayBuilder.laidOut? (written parts) = ArrayBuilder.laidOut? (normalised parts) ↔
      (∀ part ∈ parts, ∀ key ∈ part.keys, key.normalKey = key) ∨
        ArrayBuilder.laidOut? (written parts) = none := by
  have hsimple : ∀ key value, Entry.keyed key value ∈ written parts → key.IsSimple := by
    intro key value hmem
    obtain ⟨part, hpart, hentry⟩ := List.mem_flatMap.mp hmem
    cases isPlainEntry_of_mem (h part hpart) _ hentry with
    | keyed _ hsimple _ => exact hsimple
  constructor
  · -- An array keeps a key that is not in normal form, and an array of normal forms has none.
    intro hsame
    by_contra hnot
    rw [not_or] at hnot
    obtain ⟨hkeys, hsome⟩ := hnot
    push Not at hkeys
    obtain ⟨part, hpart, key, hkey, hne⟩ := hkeys
    obtain ⟨value, hvalue⟩ := exists_keyed_of_ne hpart hkey hne
    obtain ⟨array, harray⟩ := Option.ne_none_iff_exists'.mp hsome
    obtain ⟨all, hall, rfl⟩ := Option.map_eq_some_iff.mp harray
    obtain ⟨all', hall', hmaps⟩ := Option.map_eq_some_iff.mp (hsame.symm.trans harray)
    rw [Value.array.injEq] at hmaps
    have hsimpleAll := ArrayBuilder.forall_of_layOut .int hall
      (fun _ hpair => absurd hpair List.not_mem_nil) hsimple
    have hwritten : key ∈ all.map Prod.fst :=
      List.mem_map_of_mem ((ArrayBuilder.mem_of_layOut hall).2 key value hvalue)
    have hmapped := ArrayBuilder.keys_subset_orderedMap hsimpleAll hwritten
    rw [← hmaps] at hmapped
    obtain ⟨pair, hpair, rfl⟩ :=
      List.mem_map.mp (ArrayBuilder.keys_orderedMap_subset all' hmapped)
    exact hne (normalKey_of_normalised hall' pair hpair)
  · rintro (hnormal | hnone)
    · rw [normalised_eq_written hnormal]
    · have hwritten : ArrayBuilder.layOut [] (written parts) = none :=
        Option.map_eq_none_iff.mp hnone
      have hnormalised : ArrayBuilder.layOut [] (normalised parts) = none := by
        rw [← Option.not_isSome_iff_eq_none]
        intro hsome
        have hstart : 0 ≤ ArrayBuilder.nextKey [] := Int.le_refl 0
        have hplace := ArrayBuilder.layOut_isSome_of_ahead (forall₂_ahead h) hstart
          (Int.le_refl _) hsome
        rw [hwritten] at hplace
        cases hplace
      rw [hnone, ArrayBuilder.laidOut?, hnormalised]
      rfl

end ElementValue

/-- No array is what is not known. -/
theorem getD_laidOut?_inj {entries entries' : List Entry} {text : String} :
    (ArrayBuilder.laidOut? entries).getD (.unresolved text) =
        (ArrayBuilder.laidOut? entries').getD (.unresolved text) ↔
      ArrayBuilder.laidOut? entries = ArrayBuilder.laidOut? entries' := by
  constructor
  · unfold ArrayBuilder.laidOut?
    cases ArrayBuilder.layOut [] entries <;> cases ArrayBuilder.layOut [] entries' <;> simp
  · rintro h
    rw [h]

section Literals

variable {s : Scope} {follow : String → Option (Except Error Value)}

/-- An array literal is the ordered map of its elements with the keys as they are written, and it is
not known if an element without a key comes behind the largest integer of all. This is what the
normal forms of the keys give just if all keys are in normal form or the literal is not known. -/
theorem array_literal_laid_out (span : Span) {elements : List ArrayElement}
    {parts : List ElementValue} (h : List.Forall₂ (ElementValue.IsOf s follow) elements parts)
    (hplain : ∀ part ∈ parts, part.Plain) :
    evalWith s follow (.array span elements) =
        .ok ((ArrayBuilder.laidOut? (ElementValue.written parts)).getD
          (.unresolved (Text.under s.source span))) ∧
      (evalWith s follow (.array span elements) =
          .ok ((ArrayBuilder.laidOut? (ElementValue.normalised parts)).getD
            (.unresolved (Text.under s.source span))) ↔
        (∀ part ∈ parts, ∀ key ∈ part.keys, key.normalKey = key) ∨
          ArrayBuilder.laidOut? (ElementValue.written parts) = none) := by
  have hentries : ∀ entry ∈ ElementValue.written parts, ArrayBuilder.IsPlainEntry entry := by
    intro entry hentry
    obtain ⟨part, hpart, hmem⟩ := List.mem_flatMap.mp hentry
    exact ElementValue.isPlainEntry_of_mem (hplain part hpart) entry hmem
  have hresult : evalWith s follow (.array span elements) =
      .ok ((ArrayBuilder.laidOut? (ElementValue.written parts)).getD
        (.unresolved (Text.under s.source span))) := by
    rw [evalWith_array (ElementValue.evalElements_eq h), ArrayBuilder.build?_eq_laidOut? hentries]
  refine ⟨hresult, ?_⟩
  rw [hresult, Except.ok.injEq, getD_laidOut?_inj]
  exact ElementValue.laidOut?_written_iff hplain

end Literals

/-- A literal with a string as key, an integer as key and an element without a key. -/
def mixedElements : List ArrayElement :=
  [.pair (.string ⟨1, 4⟩ "'a'" (some "a")) (.leaf ⟨8, 12⟩ .name "null"),
    .pair (.leaf ⟨14, 15⟩ .number "5") (.leaf ⟨19, 23⟩ .name "true"),
    .value (.leaf ⟨25, 29⟩ .name "null")]

def mixedParts : List ElementValue :=
  [.keyed (.string "a") .null, .keyed (.int 5) (.bool true), .bare .null]

theorem isOf_mixed :
    List.Forall₂ (ElementValue.IsOf .outermost fun _ => none) mixedElements mixedParts := by
  have hfive : (Expr.leaf ⟨14, 15⟩ .number "5").Denotes (.int 5) :=
    denotes_natural (i := 5) (n := 5) rfl _ _
  refine .cons (.keyed (denotes_string _ _ _ _ _) (denotes_null _ _ _ _))
    (.cons (.keyed (hfive _ _) (denotes_bool true _ _ _ _)) (.cons (.bare ?_) .nil))
  exact denotes_null _ _ _ _

theorem plain_mixed : ∀ part ∈ mixedParts, part.Plain := by
  have htext : ∀ i, (Value.string "a").normalKey = .int i → 0 ≤ i.toInt := by
    intro i h
    cases h
  have hint : ∀ i, (Value.int 5).normalKey = .int i → 0 ≤ i.toInt := by
    intro i h
    cases h
    decide
  simp only [mixedParts, List.forall_mem_cons]
  exact ⟨.keyed _ ⟨.string "a", htext⟩, .keyed _ ⟨.int 5, hint⟩, .bare _,
    fun _ h => absurd h List.not_mem_nil⟩

/-- The element without a key gets the one after 5. -/
theorem array_literal_laid_out_mixed :
    List.Forall₂ (ElementValue.IsOf .outermost fun _ => none) mixedElements mixedParts ∧
      (∀ part ∈ mixedParts, part.Plain) ∧
      evalWith .outermost (fun _ => none) (.array ⟨0, 30⟩ mixedElements) =
        .ok (.array [(.string "a", .null), (.int 5, .bool true), (.int 6, .null)]) :=
  ⟨isOf_mixed, plain_mixed, (array_literal_laid_out _ isOf_mixed plain_mixed).1⟩

/-- True and one are one key, and yet both are kept. -/
theorem array_literal_keeps_true :
    ¬ ∀ (s : Scope) (follow : String → Option (Except Error Value)) (span : Span)
      (elements : List ArrayElement) (parts : List ElementValue),
      List.Forall₂ (ElementValue.IsOf s follow) elements parts → (∀ part ∈ parts, part.Plain) →
      evalWith s follow (.array span elements) =
        .ok ((ArrayBuilder.laidOut? (ElementValue.normalised parts)).getD
          (.unresolved (Text.under s.source span))) := by
  intro h
  have hone : (Expr.leaf ⟨14, 15⟩ .number "1").Denotes (.int 1) :=
    denotes_natural (i := 1) (n := 1) rfl _ _
  have hparts : List.Forall₂ (ElementValue.IsOf .outermost fun _ => none)
      [.pair (.leaf ⟨1, 5⟩ .name "true") (.leaf ⟨9, 13⟩ .name "null"),
        .pair (.leaf ⟨14, 15⟩ .number "1") (.leaf ⟨19, 23⟩ .name "null")]
      [.keyed (.bool true) .null, .keyed (.int 1) .null] :=
    .cons (.keyed (denotes_bool true _ _ _ _) (denotes_null _ _ _ _))
      (.cons (.keyed (hone _ _) (denotes_null _ _ _ _)) .nil)
  have hnonneg : ∀ i : Int64, Value.int 1 = .int i → 0 ≤ i.toInt := by
    intro i h
    cases h
    decide
  have hplain : ∀ part ∈ [ElementValue.keyed (.bool true) .null, .keyed (.int 1) .null],
      part.Plain := by
    simp only [List.forall_mem_cons]
    exact ⟨.keyed _ ⟨.bool true, hnonneg⟩, .keyed _ ⟨.int 1, hnonneg⟩,
      fun _ h => absurd h List.not_mem_nil⟩
  have hresult := h _ _ ⟨0, 24⟩ _ _ hparts hplain
  rw [evalWith_array (ElementValue.evalElements_eq hparts)] at hresult
  cases hresult

end StaticReflection
