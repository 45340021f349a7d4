import Mathlib.Data.List.Forall2
import StaticReflection.Value.Entries

/-!
Arrays of which not everything is known. An array literal whose value is known in full has known
keys throughout, since no key ever goes away again. Values that are not known may have been replaced
by later ones. So such a literal stays what it is when values that are not known become known, as
long as the elements and their keys stay where they are.
-/

namespace StaticReflection

namespace Value

mutual

/-- What is the same is known to the same degree. -/
theorem isResolved_eq_of_same {a b : Value} (h : a.same b = true) :
    a.isResolved = b.isResolved := by
  cases a with
  | array items =>
    cases b with
    | array items' =>
      rw [same] at h
      rw [isResolved, isResolved]
      exact allResolved_eq_of_sameItems h
    | _ => simp [same] at h
  | _ => cases b <;> simp_all [same, isResolved]

theorem allResolved_eq_of_sameItems {items items' : List (Value × Value)}
    (h : sameItems items items' = true) : allResolved items = allResolved items' := by
  match items, items' with
  | [], [] => rfl
  | (k, v) :: rest, (k', v') :: rest' =>
    rw [sameItems, Bool.and_eq_true, Bool.and_eq_true] at h
    obtain ⟨⟨hk, hv⟩, hrest⟩ := h
    rw [allResolved, allResolved, isResolved_eq_of_same hk, isResolved_eq_of_same hv,
      allResolved_eq_of_sameItems hrest]
  | [], _ :: _ | _ :: _, [] => simp [sameItems] at h

end

theorem allResolved_iff {items : List (Value × Value)} :
    allResolved items = true ↔
      ∀ item ∈ items, item.1.isResolved = true ∧ item.2.isResolved = true := by
  induction items with
  | nil => simp [allResolved]
  | cons item rest ih => simp [allResolved, ih]

/-- A value that is known stays as it is; any other may become something else. -/
def Stays (before after : Value) : Prop := before.isResolved = true → after = before

end Value

/-- Elements of which the keys stay, and the values as far as they are known. -/
inductive Entry.Stays : Entry → Entry → Prop where
  | keyed (key : Value) {v v' : Value} (h : v.Stays v') : Stays (.keyed key v) (.keyed key v')
  | append {v v' : Value} (h : v.Stays v') : Stays (.append v) (.append v')

theorem Entry.Stays.refl (entry : Entry) : entry.Stays entry := by
  cases entry with
  | keyed key v => exact .keyed key fun _ => rfl
  | append v => exact .append fun _ => rfl

namespace ArrayBuilder

/-- Pairs of a key, which stays, and a value, which stays if it is known. -/
def ItemStays (before after : Value × Value) : Prop :=
  after.1 = before.1 ∧ before.2.Stays after.2

/-- Arrays being built of which the keys stay, and the values as far as they are known. -/
structure Stays (before after : ArrayBuilder) : Prop where
  items : List.Forall₂ ItemStays before.items after.items
  next_eq : after.next = before.next
  complete_eq : after.complete = before.complete

theorem stays_set {key v v' : Value} (hv : v.Stays v') {items items' : List (Value × Value)}
    (h : List.Forall₂ ItemStays items items') :
    List.Forall₂ ItemStays (set key v items) (set key v' items') := by
  induction h with
  | nil =>
    rw [set, set]
    exact .cons ⟨rfl, hv⟩ .nil
  | @cons item item' rest rest' hitem hrest ih =>
    obtain ⟨k, x⟩ := item
    obtain ⟨k', x'⟩ := item'
    obtain rfl : k' = k := hitem.1
    rw [set, set]
    split
    · exact .cons ⟨rfl, hv⟩ hrest
    · exact .cons hitem ih

theorem Stays.push {b b' : ArrayBuilder} (h : b.Stays b') {entry entry' : Entry}
    (hentry : entry.Stays entry') : (b.push entry).Stays (b'.push entry') := by
  cases hentry with
  | keyed key hv =>
    refine ⟨stays_set hv h.items, ?_, h.complete_eq⟩
    exact congrArg (nextAfter · key) h.next_eq
  | append hv =>
    unfold ArrayBuilder.push
    simp only [h.next_eq]
    cases b.next with
    | none => exact ⟨h.items, rfl, rfl⟩
    | some i => exact ⟨stays_set hv h.items, rfl, h.complete_eq⟩

theorem Stays.foldl_push {entries entries' : List Entry}
    (hentries : List.Forall₂ Entry.Stays entries entries') {b b' : ArrayBuilder} (h : b.Stays b') :
    (entries.foldl ArrayBuilder.push b).Stays (entries'.foldl ArrayBuilder.push b') := by
  induction hentries generalizing b b' with
  | nil => exact h
  | cons hentry _ ih => exact ih (h.push hentry)

/-- Where all values are known, all of them stay. -/
theorem eq_of_itemsStay {items items' : List (Value × Value)}
    (h : List.Forall₂ ItemStays items items') (hknown : Value.allResolved items = true) :
    items' = items := by
  induction h with
  | nil => rfl
  | @cons item item' rest rest' hitem _ ih =>
    obtain ⟨hfirst, hrest⟩ := List.forall_mem_cons.mp (Value.allResolved_iff.mp hknown)
    have hpair : item' = item := Prod.ext hitem.1 (hitem.2 hfirst.2)
    rw [hpair, ih (Value.allResolved_iff.mpr hrest)]

theorem build?_eq_some {entries : List Entry} {v : Value} :
    build? entries = some v ↔
      (entries.foldl push empty).complete = true ∧
        v = .array (entries.foldl push empty).items := by
  unfold build?
  by_cases hcomplete : (entries.foldl push empty).complete = true
  · simp [hcomplete, eq_comm]
  · simp [hcomplete]

/-- An array that is known in full stays, if the keys of its elements do, and their values as far as
they are known. -/
theorem build_of_stays {entries entries' : List Entry}
    (h : List.Forall₂ Entry.Stays entries entries') {v : Value} (hbuild : build? entries = some v)
    (hv : v.isResolved = true) : build? entries' = some v := by
  have hempty : empty.Stays empty := ⟨.nil, rfl, rfl⟩
  have hstays := hempty.foldl_push h
  obtain ⟨hcomplete, rfl⟩ := build?_eq_some.mp hbuild
  rw [build?_eq_some, hstays.complete_eq, eq_of_itemsStay hstays.items hv]
  exact ⟨hcomplete, rfl⟩

/-- A key that was set is there, or one that is the same. -/
theorem exists_key_of_set (key v : Value) (items : List (Value × Value)) :
    ∃ item ∈ set key v items, item.1.isResolved = key.isResolved := by
  induction items with
  | nil => exact ⟨(key, v), List.mem_cons_self, rfl⟩
  | cons item rest ih =>
    obtain ⟨k, x⟩ := item
    rw [set]
    split
    · rename_i hsame
      exact ⟨(k, v), List.mem_cons_self, Value.isResolved_eq_of_same hsame⟩
    · obtain ⟨found, hfound, hkey⟩ := ih
      exact ⟨found, List.mem_cons_of_mem _ hfound, hkey⟩

/-- Keys stay when another key is set. -/
theorem keys_subset_set (key v : Value) (items : List (Value × Value)) :
    items.map Prod.fst ⊆ (set key v items).map Prod.fst := by
  induction items with
  | nil => simp
  | cons item rest ih =>
    obtain ⟨k, x⟩ := item
    rw [set]
    split
    · simp
    · simp only [List.map_cons]
      exact List.cons_subset_cons k ih

theorem keys_subset_push (b : ArrayBuilder) (entry : Entry) :
    b.items.map Prod.fst ⊆ (b.push entry).items.map Prod.fst := by
  cases entry with
  | keyed key v => exact keys_subset_set key v b.items
  | append v =>
    unfold push
    cases b.next with
    | none => simp
    | some i => exact keys_subset_set (.int i) v b.items

theorem keys_subset_foldl (entries : List Entry) (b : ArrayBuilder) :
    b.items.map Prod.fst ⊆ (entries.foldl push b).items.map Prod.fst := by
  induction entries generalizing b with
  | nil => simp
  | cons entry rest ih =>
    exact List.Subset.trans (keys_subset_push b entry) (ih (b.push entry))

theorem isResolved_key_of_foldl {entries : List Entry} {b : ArrayBuilder}
    (hknown : Value.allResolved (entries.foldl push b).items = true) {key v : Value}
    (h : Entry.keyed key v ∈ entries) : key.isResolved = true := by
  induction entries generalizing b with
  | nil => cases h
  | cons entry rest ih =>
    rcases List.mem_cons.mp h with rfl | h
    · obtain ⟨item, hitem, hkey⟩ := exists_key_of_set key v b.items
      have hpushed : item.1 ∈ (b.push (.keyed key v)).items.map Prod.fst :=
        List.mem_map_of_mem hitem
      obtain ⟨last, hlast, hsame⟩ :=
        List.mem_map.mp (keys_subset_foldl rest (b.push (.keyed key v)) hpushed)
      rw [← hkey, ← hsame]
      exact (Value.allResolved_iff.mp hknown last hlast).1
    · exact ih hknown h

/-- All keys in an array that is known in full are known. -/
theorem isResolved_key_of_build {entries : List Entry} {v : Value}
    (hbuild : build? entries = some v) (hv : v.isResolved = true) {key x : Value}
    (h : Entry.keyed key x ∈ entries) : key.isResolved = true := by
  obtain ⟨-, rfl⟩ := build?_eq_some.mp hbuild
  exact isResolved_key_of_foldl hv h

end ArrayBuilder

end StaticReflection
