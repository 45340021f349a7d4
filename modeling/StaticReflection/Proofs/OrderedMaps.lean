import Mathlib.Data.List.Forall2
import StaticReflection.Value.Entries

/-!
Arrays as ordered maps. The elements of an array are laid out in the order they are written, each
under its key: an element with a key under that key, and any other one under one more than the
largest integer key so far. Then each key is kept once, where it came first, with the value it came
with last. Building an array comes to the same.
-/

namespace StaticReflection

namespace Value

/-- Null, truth values, integers and strings. -/
inductive IsSimple : Value → Prop
  | null : IsSimple .null
  | bool (b : Bool) : IsSimple (.bool b)
  | int (i : Int64) : IsSimple (.int i)
  | string (s : String) : IsSimple (.string s)

/-- Only the key itself is the same as a simple key. -/
theorem IsSimple.same_iff {key : Value} (h : key.IsSimple) (other : Value) :
    other.same key = true ↔ other = key := by
  cases h <;> cases other <;> simp [same]

end Value

/-! ### Laying out elements -/

namespace ArrayBuilder

/-- The last value of a key, or the given one if the key does not come any more. -/
def lastValue (key value : Value) (pairs : List (Value × Value)) : Value :=
  ((pairs.reverse.find? fun pair => pair.1.same key).map (·.2)).getD value

/-- Each key once: where it came first, with its last value. -/
def orderedMap : List (Value × Value) → List (Value × Value)
  | [] => []
  | (key, value) :: rest =>
    (key, lastValue key value rest) :: (orderedMap rest).filter fun pair => !pair.1.same key

def intKey? : Value → Option Int
  | .int i => some i.toInt
  | _ => none

def intKeys (pairs : List (Value × Value)) : List Int := pairs.filterMap fun pair => intKey? pair.1

/-- One more than the largest integer key, and zero if there is none. -/
def nextKey (pairs : List (Value × Value)) : Int := ((intKeys pairs).max?.map (· + 1)).getD 0

/-- The pairs of all elements in the order they are written, behind those that are there. There are
none if an element without a key comes behind the largest integer of all. -/
def layOut (pairs : List (Value × Value)) : List Entry → Option (List (Value × Value))
  | [] => some pairs
  | .keyed key value :: rest => layOut (pairs ++ [(key, value)]) rest
  | .append value :: rest =>
    if pairs.any fun pair => pair.1.same (.int Int64.maxValue) then none
    else layOut (pairs ++ [(.int (Int64.ofInt (nextKey pairs)), value)]) rest

/-- The array of a list of elements that are laid out. -/
def laidOut? (entries : List Entry) : Option Value :=
  (layOut [] entries).map fun pairs => .array (orderedMap pairs)

/-! ### Setting a key in an ordered map -/

theorem lastValue_concat_same {key : Value} (h : key.IsSimple) (value v : Value)
    (pairs : List (Value × Value)) : lastValue key value (pairs ++ [(key, v)]) = v := by
  simp [lastValue, h.same_iff]

theorem lastValue_concat_of_ne {key other : Value} (h : ¬ other.same key = true) (value v : Value)
    (pairs : List (Value × Value)) :
    lastValue key value (pairs ++ [(other, v)]) = lastValue key value pairs := by
  simp [lastValue, h]

/-- Among the other keys, setting a key changes nothing. -/
theorem filter_set_same {key : Value} (h : key.IsSimple) (value : Value)
    (items : List (Value × Value)) :
    (set key value items).filter (fun pair => !pair.1.same key) =
      items.filter fun pair => !pair.1.same key := by
  have hself : key.same key = true := (h.same_iff key).mpr rfl
  induction items with
  | nil => simp [set, hself]
  | cons item rest ih =>
    obtain ⟨k, v⟩ := item
    rw [set]
    split
    · rename_i hsame
      simp [hsame]
    · rw [List.filter_cons, List.filter_cons, ih]

/-- Without another key, a key is set as it is with it. -/
theorem filter_set_of_ne {key other : Value} (h : key.IsSimple) (hne : ¬ key.same other = true)
    (value : Value) (items : List (Value × Value)) :
    (set key value items).filter (fun pair => !pair.1.same other) =
      set key value (items.filter fun pair => !pair.1.same other) := by
  induction items with
  | nil => simp [set, hne]
  | cons item rest ih =>
    obtain ⟨k, v⟩ := item
    by_cases hsame : k.same key = true
    · obtain rfl := (h.same_iff k).mp hsame
      simp [set, hsame, hne]
    · rw [set, if_neg hsame, List.filter_cons, List.filter_cons, ih]
      split
      · rw [set, if_neg hsame]
      · rfl

/-- Setting a key in an ordered map is laying out one more pair. -/
theorem set_orderedMap {key : Value} (h : key.IsSimple) (value : Value)
    (pairs : List (Value × Value)) (hpairs : ∀ pair ∈ pairs, pair.1.IsSimple) :
    set key value (orderedMap pairs) = orderedMap (pairs ++ [(key, value)]) := by
  induction pairs with
  | nil => rfl
  | cons pair rest ih =>
    obtain ⟨k, v⟩ := pair
    have hk : k.IsSimple := hpairs (k, v) List.mem_cons_self
    rw [List.cons_append, orderedMap, orderedMap,
      ← ih fun pair hpair => hpairs pair (List.mem_cons_of_mem _ hpair), set]
    by_cases hsame : k.same key = true
    · obtain rfl := (h.same_iff k).mp hsame
      rw [if_pos hsame, filter_set_same h, lastValue_concat_same h]
    · have hother : ¬ key.same k = true := fun hkey => hsame <| by
        rw [(hk.same_iff key).mp hkey]
        exact (hk.same_iff k).mpr rfl
      rw [if_neg hsame, filter_set_of_ne h hother, lastValue_concat_of_ne hother]

/-- An ordered map has no keys but those of the pairs. -/
theorem keys_orderedMap_subset (pairs : List (Value × Value)) :
    (orderedMap pairs).map Prod.fst ⊆ pairs.map Prod.fst := by
  induction pairs with
  | nil => exact List.Subset.refl _
  | cons pair rest ih =>
    obtain ⟨k, v⟩ := pair
    rw [orderedMap, List.map_cons, List.map_cons]
    refine List.cons_subset_cons k fun key hkey => ih ?_
    exact List.map_subset _ (List.filter_subset_self _) hkey

/-- No key of the pairs is missing in an ordered map. -/
theorem keys_subset_orderedMap {pairs : List (Value × Value)}
    (h : ∀ pair ∈ pairs, pair.1.IsSimple) :
    pairs.map Prod.fst ⊆ (orderedMap pairs).map Prod.fst := by
  induction pairs with
  | nil => exact List.Subset.refl _
  | cons pair rest ih =>
    obtain ⟨k, v⟩ := pair
    have hk : k.IsSimple := h (k, v) List.mem_cons_self
    intro key hkey
    rw [orderedMap, List.map_cons, List.mem_cons]
    by_cases hself : key = k
    · exact .inl hself
    · have hrest := (List.mem_cons.mp hkey).resolve_left hself
      obtain ⟨item, hitem, rfl⟩ :=
        List.mem_map.mp (ih (fun pair hpair => h pair (List.mem_cons_of_mem _ hpair)) hrest)
      refine .inr (List.mem_map.mpr ⟨item, List.mem_filter.mpr ⟨hitem, ?_⟩, rfl⟩)
      rw [Bool.not_eq_true', ← Bool.not_eq_true, hk.same_iff]
      exact hself

/-! ### The next key -/

theorem max?_concat (is : List Int) (i : Int) :
    (is ++ [i]).max? = some ((is.max?.map (max · i)).getD i) := by
  rw [List.max?_eq_some_iff]
  cases hmax : is.max? with
  | none =>
    rw [List.max?_eq_none_iff.mp hmax]
    simp
  | some largest =>
    obtain ⟨hmem, hle⟩ := List.max?_eq_some_iff.mp hmax
    simp only [List.mem_append, List.mem_singleton, Option.map_some, Option.getD_some]
    refine ⟨?_, ?_⟩
    · rcases Int.le_total largest i with h | h
      · exact .inr (Int.max_eq_right h)
      · exact .inl ((Int.max_eq_left h).symm ▸ hmem)
    · rintro j (hj | rfl)
      · exact Int.le_trans (hle j hj) (Int.le_max_left _ _)
      · exact Int.le_max_right _ _

theorem nextKey_concat_int {i : Int64} (hi : 0 ≤ i.toInt) (value : Value)
    (pairs : List (Value × Value)) :
    nextKey (pairs ++ [(.int i, value)]) = max (nextKey pairs) (i.toInt + 1) := by
  have hkeys : intKeys (pairs ++ [(.int i, value)]) = intKeys pairs ++ [i.toInt] := by
    rw [intKeys, List.filterMap_append]
    rfl
  rw [nextKey, hkeys, max?_concat, nextKey]
  cases (intKeys pairs).max? with
  | none =>
    simp only [Option.map_none, Option.getD_none, Option.map_some, Option.getD_some]
    omega
  | some largest =>
    simp only [Option.map_some, Option.getD_some]
    omega

theorem nextKey_concat_other {key : Value} (h : ∀ i, key ≠ .int i) (value : Value)
    (pairs : List (Value × Value)) : nextKey (pairs ++ [(key, value)]) = nextKey pairs := by
  have hkey : intKeys [(key, value)] = [] := by
    cases key with
    | int i => exact absurd rfl (h i)
    | _ => rfl
  have hkeys : intKeys (pairs ++ [(key, value)]) = intKeys pairs ++ intKeys [(key, value)] :=
    List.filterMap_append
  rw [nextKey, nextKey, hkeys, hkey, List.append_nil]

theorem mem_intKeys {pairs : List (Value × Value)} {i : Int} :
    i ∈ intKeys pairs ↔ ∃ j : Int64, (∃ value, (.int j, value) ∈ pairs) ∧ j.toInt = i := by
  rw [intKeys, List.mem_filterMap]
  constructor
  · rintro ⟨⟨key, value⟩, hmem, hkey⟩
    cases key with
    | int j => exact ⟨j, ⟨value, hmem⟩, Option.some.inj hkey⟩
    | _ => cases hkey
  · rintro ⟨j, ⟨value, hmem⟩, rfl⟩
    exact ⟨_, hmem, rfl⟩

/-- Behind the largest integer of all there is no next key that fits. -/
theorem any_largest_iff (pairs : List (Value × Value)) :
    (pairs.any fun pair => pair.1.same (.int Int64.maxValue)) = true ↔
      Int64.maxValue.toInt < nextKey pairs := by
  have hmem : (pairs.any fun pair => pair.1.same (.int Int64.maxValue)) = true ↔
      Int64.maxValue.toInt ∈ intKeys pairs := by
    rw [List.any_eq_true, mem_intKeys]
    constructor
    · rintro ⟨⟨key, value⟩, hmem, hsame⟩
      rw [(Value.IsSimple.int _).same_iff] at hsame
      exact ⟨Int64.maxValue, ⟨value, hsame ▸ hmem⟩, rfl⟩
    · rintro ⟨j, ⟨value, hmem⟩, hj⟩
      obtain rfl := Int64.toInt_inj.mp hj
      exact ⟨_, hmem, ((Value.IsSimple.int _).same_iff _).mpr rfl⟩
  rw [hmem, nextKey]
  cases hlargest : (intKeys pairs).max? with
  | none =>
    rw [List.max?_eq_none_iff.mp hlargest]
    exact iff_of_false List.not_mem_nil (by decide)
  | some largest =>
    obtain ⟨hin, hle⟩ := List.max?_eq_some_iff.mp hlargest
    obtain ⟨j, -, hj⟩ := mem_intKeys.mp hin
    have hj' := Int64.toInt_le j
    rw [Option.map_some, Option.getD_some]
    constructor
    · intro h
      have := hle _ h
      omega
    · intro h
      have : largest = Int64.maxValue.toInt := by omega
      exact this ▸ hin

theorem toInt64?_of_nonneg {i : Int} (h : 0 ≤ i) :
    Number.toInt64? i = if i ≤ Int64.maxValue.toInt then some (Int64.ofInt i) else none := by
  have hmin : Int64.minValue.toInt ≤ 0 := by decide
  rw [Number.toInt64?]
  by_cases hfits : i ≤ Int64.maxValue.toInt
  · rw [if_pos hfits, if_pos (by omega)]
  · rw [if_neg hfits, if_neg (by omega)]

theorem toInt_ofInt_of_fits {i : Int} (h : 0 ≤ i) (hfits : i ≤ Int64.maxValue.toInt) :
    (Int64.ofInt i).toInt = i := by
  have hmax : Int64.maxValue.toInt = 9223372036854775807 := by decide
  exact Int64.toInt_ofInt_of_le (by omega) (by omega)

theorem nextKey_concat_ge {key : Value} (h : ∀ i, key = .int i → 0 ≤ i.toInt) (value : Value)
    (pairs : List (Value × Value)) : nextKey pairs ≤ nextKey (pairs ++ [(key, value)]) := by
  by_cases hint : ∃ i, key = .int i
  · obtain ⟨i, rfl⟩ := hint
    rw [nextKey_concat_int (h i rfl)]
    exact Int.le_max_left _ _
  · rw [not_exists] at hint
    exact Int.le_of_eq (nextKey_concat_other hint value pairs).symm

theorem nextKey_concat_next {pairs : List (Value × Value)} (h : 0 ≤ nextKey pairs)
    (hfits : nextKey pairs ≤ Int64.maxValue.toInt) (value : Value) :
    nextKey (pairs ++ [(.int (Int64.ofInt (nextKey pairs)), value)]) = nextKey pairs + 1 := by
  have hkey := toInt_ofInt_of_fits h hfits
  rw [nextKey_concat_int (by rw [hkey]; exact h), hkey]
  omega

theorem nextAfter_int {n : Int} (hn : 0 ≤ n) {i : Int64} (hi : 0 ≤ i.toInt) :
    nextAfter (Number.toInt64? n) (.int i) = Number.toInt64? (max n (i.toInt + 1)) := by
  have hlater : 0 ≤ i.toInt + 1 := by omega
  have hmax : 0 ≤ max n (i.toInt + 1) := by omega
  simp only [nextAfter, successor?, toInt64?_of_nonneg hn, toInt64?_of_nonneg hlater,
    toInt64?_of_nonneg hmax]
  by_cases hfits : n ≤ Int64.maxValue.toInt ∧ i.toInt + 1 ≤ Int64.maxValue.toInt
  · rw [if_pos hfits.1, if_pos hfits.2, if_pos (by omega)]
    simp only [toInt_ofInt_of_fits hn hfits.1, toInt_ofInt_of_fits hlater hfits.2]
    split
    · rw [Int.max_eq_right (by omega)]
    · rw [Int.max_eq_left (by omega)]
  · rw [if_neg (by omega : ¬ max n (i.toInt + 1) ≤ Int64.maxValue.toInt)]
    by_cases hfirst : n ≤ Int64.maxValue.toInt
    · rw [if_pos hfirst, if_neg (by omega)]
    · rw [if_neg hfirst]

theorem nextAfter_other {key : Value} (h : ∀ i, key ≠ .int i) (next : Option Int64) :
    nextAfter next key = next := by
  cases key with
  | int i => exact absurd rfl (h i)
  | _ => rfl

/-! ### Building is laying out -/

/-- Elements with a simple key that is no negative integer, or without a key. -/
inductive IsPlainEntry : Entry → Prop
  | keyed {key : Value} (value : Value) (hsimple : key.IsSimple)
      (hnonneg : ∀ i, key = .int i → 0 ≤ i.toInt) : IsPlainEntry (.keyed key value)
  | append (value : Value) : IsPlainEntry (.append value)

/-- An array being built, and the pairs that are laid out. -/
structure Holds (b : ArrayBuilder) (pairs : List (Value × Value)) : Prop where
  simple : ∀ pair ∈ pairs, pair.1.IsSimple
  nonneg : 0 ≤ nextKey pairs
  items_eq : b.items = orderedMap pairs
  next_eq : b.next = Number.toInt64? (nextKey pairs)
  complete_eq : b.complete = true

theorem holds_empty : empty.Holds [] :=
  ⟨fun _ h => absurd h List.not_mem_nil, Int.le_refl 0, rfl, rfl, rfl⟩

section Steps

variable {b : ArrayBuilder} {pairs : List (Value × Value)}

theorem simple_concat (h : ∀ pair ∈ pairs, pair.1.IsSimple) {key : Value} (hkey : key.IsSimple)
    (value : Value) : ∀ pair ∈ pairs ++ [(key, value)], pair.1.IsSimple := by
  intro pair hpair
  rcases List.mem_append.mp hpair with hpair | hpair
  · exact h pair hpair
  · obtain rfl := List.mem_singleton.mp hpair
    exact hkey

/-- An element with a key is laid out under that key. -/
theorem Holds.push_keyed (h : b.Holds pairs) {key : Value} (hsimple : key.IsSimple)
    (hnonneg : ∀ i, key = .int i → 0 ≤ i.toInt) (value : Value) :
    (b.push (.keyed key value)).Holds (pairs ++ [(key, value)]) := by
  have hitems : set key value b.items = orderedMap (pairs ++ [(key, value)]) := by
    rw [h.items_eq, set_orderedMap hsimple value pairs h.simple]
  have hnext : nextAfter b.next key = Number.toInt64? (nextKey (pairs ++ [(key, value)])) ∧
      0 ≤ nextKey (pairs ++ [(key, value)]) := by
    by_cases hint : ∃ i, key = .int i
    · obtain ⟨i, rfl⟩ := hint
      have hi := hnonneg i rfl
      rw [nextKey_concat_int hi, h.next_eq, nextAfter_int h.nonneg hi]
      exact ⟨rfl, Int.le_trans h.nonneg (Int.le_max_left _ _)⟩
    · rw [not_exists] at hint
      rw [nextKey_concat_other hint, nextAfter_other hint]
      exact ⟨h.next_eq, h.nonneg⟩
  exact ⟨simple_concat h.simple hsimple value, hnext.2, hitems, hnext.1, h.complete_eq⟩

/-- An element without a key is laid out under the next one. -/
theorem Holds.push_append (h : b.Holds pairs) (hfits : nextKey pairs ≤ Int64.maxValue.toInt)
    (value : Value) :
    (b.push (.append value)).Holds (pairs ++ [(.int (Int64.ofInt (nextKey pairs)), value)]) := by
  have hnext : b.next = some (Int64.ofInt (nextKey pairs)) := by
    rw [h.next_eq, toInt64?_of_nonneg h.nonneg, if_pos hfits]
  have hlater := nextKey_concat_next h.nonneg hfits value
  unfold ArrayBuilder.push
  rw [hnext]
  refine ⟨simple_concat h.simple (.int _) value, ?_, ?_, ?_, h.complete_eq⟩
  · have := h.nonneg
    omega
  · simp only [h.items_eq]
    exact set_orderedMap (.int _) value pairs h.simple
  · simp only [hlater, successor?, toInt_ofInt_of_fits h.nonneg hfits]

/-- Where there is no next key the array stays incomplete. -/
theorem Holds.incomplete (h : b.Holds pairs) (hfull : Int64.maxValue.toInt < nextKey pairs)
    (value : Value) : (b.push (.append value)).complete = false := by
  have hnext : b.next = none := by
    rw [h.next_eq, toInt64?_of_nonneg h.nonneg, if_neg (by omega)]
  unfold ArrayBuilder.push
  rw [hnext]

theorem incomplete_foldl (entries : List Entry) (h : b.complete = false) :
    (entries.foldl push b).complete = false := by
  induction entries generalizing b with
  | nil => exact h
  | cons entry rest ih =>
    refine ih ?_
    cases entry with
    | keyed key value => exact h
    | append value =>
      unfold push
      cases b.next with
      | none => rfl
      | some i => exact h

/-- Building an array ends with the ordered map of what is laid out, or incomplete. -/
theorem Holds.foldl_push {entries : List Entry} (hentries : ∀ entry ∈ entries, IsPlainEntry entry)
    (h : b.Holds pairs) :
    (layOut pairs entries).map orderedMap =
      if (entries.foldl push b).complete then some (entries.foldl push b).items else none := by
  induction entries generalizing b pairs with
  | nil =>
    rw [layOut, Option.map_some, List.foldl_nil, h.complete_eq, h.items_eq]
    rfl
  | cons entry rest ih =>
    have hrest : ∀ entry ∈ rest, IsPlainEntry entry :=
      fun entry hentry => hentries entry (List.mem_cons_of_mem _ hentry)
    rw [List.foldl_cons]
    cases hentries entry List.mem_cons_self with
    | keyed value hsimple hnonneg =>
      rw [layOut]
      exact ih hrest (h.push_keyed hsimple hnonneg value)
    | append value =>
      rw [layOut]
      by_cases hfull : Int64.maxValue.toInt < nextKey pairs
      · rw [if_pos ((any_largest_iff pairs).mpr hfull), Option.map_none,
          incomplete_foldl rest (h.incomplete hfull value)]
        rfl
      · rw [if_neg fun hany => hfull ((any_largest_iff pairs).mp hany)]
        exact ih hrest (h.push_append (Int.not_lt.mp hfull) value)

end Steps

theorem build?_eq_laidOut? {entries : List Entry}
    (h : ∀ entry ∈ entries, IsPlainEntry entry) : build? entries = laidOut? entries := by
  have hrun := holds_empty.foldl_push h
  rw [laidOut?, ← Function.comp_def Value.array orderedMap, ← Option.map_map, hrun, build?]
  cases (entries.foldl push empty).complete <;> rfl

/-! ### What is laid out -/

/-- What holds of integers and of the keys of all elements holds of all keys that are laid out. -/
theorem forall_of_layOut {P : Value → Prop} (hint : ∀ i, P (.int i)) {entries : List Entry}
    {pairs all : List (Value × Value)} (h : layOut pairs entries = some all)
    (hpairs : ∀ pair ∈ pairs, P pair.1)
    (hentries : ∀ key value, Entry.keyed key value ∈ entries → P key) :
    ∀ pair ∈ all, P pair.1 := by
  have hconcat : ∀ {pairs : List (Value × Value)} {key : Value} (value : Value),
      (∀ pair ∈ pairs, P pair.1) → P key → ∀ pair ∈ pairs ++ [(key, value)], P pair.1 := by
    intro pairs key value hpairs hkey pair hpair
    rcases List.mem_append.mp hpair with hpair | hpair
    · exact hpairs pair hpair
    · obtain rfl := List.mem_singleton.mp hpair
      exact hkey
  induction entries generalizing pairs with
  | nil =>
    cases h
    exact hpairs
  | cons entry rest ih =>
    have hrest : ∀ key value, Entry.keyed key value ∈ rest → P key :=
      fun key value hmem => hentries key value (List.mem_cons_of_mem _ hmem)
    cases entry with
    | keyed key value =>
      rw [layOut] at h
      exact ih h (hconcat value hpairs (hentries key value List.mem_cons_self)) hrest
    | append value =>
      rw [layOut] at h
      split at h
      · cases h
      · exact ih h (hconcat value hpairs (hint _)) hrest

/-- All elements with a key are laid out under it. -/
theorem mem_of_layOut {entries : List Entry} {pairs all : List (Value × Value)}
    (h : layOut pairs entries = some all) :
    pairs ⊆ all ∧ ∀ key value, Entry.keyed key value ∈ entries → (key, value) ∈ all := by
  induction entries generalizing pairs with
  | nil =>
    cases h
    exact ⟨List.Subset.refl _, fun _ _ hmem => absurd hmem List.not_mem_nil⟩
  | cons entry rest ih =>
    cases entry with
    | keyed key value =>
      rw [layOut] at h
      obtain ⟨hpairs, hrest⟩ := ih h
      refine ⟨fun pair hpair => hpairs (List.mem_append_left _ hpair), fun k v hmem => ?_⟩
      rcases List.mem_cons.mp hmem with hfirst | hmem
      · cases hfirst
        exact hpairs (List.mem_append_right _ List.mem_cons_self)
      · exact hrest k v hmem
    | append value =>
      rw [layOut] at h
      split at h
      · cases h
      · obtain ⟨hpairs, hrest⟩ := ih h
        refine ⟨fun pair hpair => hpairs (List.mem_append_left _ hpair), fun k v hmem => ?_⟩
        rcases List.mem_cons.mp hmem with hfirst | hmem
        · cases hfirst
        · exact hrest k v hmem

/-- Elements of which the second takes up integers wherever the first one does. -/
inductive Ahead : Entry → Entry → Prop
  | int {i : Int64} (value : Value) (h : 0 ≤ i.toInt) :
      Ahead (.keyed (.int i) value) (.keyed (.int i) value)
  | keyed {key key' : Value} (value : Value) (h : ∀ i, key ≠ .int i)
      (hnonneg : ∀ i, key' = .int i → 0 ≤ i.toInt) :
      Ahead (.keyed key value) (.keyed key' value)
  | numbered {key : Value} (value : Value) (h : ∀ i, key ≠ .int i) :
      Ahead (.keyed key value) (.append value)
  | append (value : Value) : Ahead (.append value) (.append value)

/-- Where the second elements find a place, the first ones do. -/
theorem layOut_isSome_of_ahead {entries entries' : List Entry}
    (h : List.Forall₂ Ahead entries entries') {pairs pairs' : List (Value × Value)}
    (hnonneg : 0 ≤ nextKey pairs) (hle : nextKey pairs ≤ nextKey pairs')
    (hsome : (layOut pairs' entries').isSome = true) : (layOut pairs entries).isSome = true := by
  -- What carries the induction is that the second next key is never the smaller one.
  induction h generalizing pairs pairs' with
  | nil => rfl
  | cons hfirst _ ih =>
    cases hfirst with
    | int value hi =>
      rw [layOut] at hsome
      rw [layOut]
      refine ih ?_ ?_ hsome
      · rw [nextKey_concat_int hi]
        omega
      · rw [nextKey_concat_int hi, nextKey_concat_int hi]
        omega
    | keyed value hkey hkey' =>
      rw [layOut] at hsome
      rw [layOut]
      rw [← nextKey_concat_other hkey value] at hnonneg hle
      exact ih hnonneg (Int.le_trans hle (nextKey_concat_ge hkey' value pairs')) hsome
    | numbered value hkey =>
      rw [layOut] at hsome
      rw [layOut]
      split at hsome
      · cases hsome
      · rename_i hnone
        rw [any_largest_iff] at hnone
        refine ih ?_ ?_ hsome
        · rwa [nextKey_concat_other hkey]
        · rw [nextKey_concat_other hkey, nextKey_concat_next (by omega) (by omega)]
          omega
    | append value =>
      rw [layOut] at hsome
      rw [layOut]
      split at hsome
      · cases hsome
      · rename_i hnone
        rw [any_largest_iff] at hnone
        rw [if_neg fun hany => hnone (Int.le_trans ((any_largest_iff pairs).mp hany) hle)]
        have hnext := nextKey_concat_next hnonneg (by omega) value
        refine ih ?_ ?_ hsome
        · omega
        · rw [hnext, nextKey_concat_next (by omega) (by omega)]
          omega

end ArrayBuilder

end StaticReflection
