import StaticReflection.Stub.Stubber

/-!
Stubs against what is known of names. A table or an index has a stub for just the names that it
calls present. In a tree of stubbers the stub is that of the first leaf that has one, but whether a
name is present is said by the first leaf that knows of it at all. The two come apart where that
leaf is an index from whose version the name is gone, and a later leaf has it.
-/

namespace StaticReflection

theorem StubTable.exists_of_get? {α : Type} {t : StubTable α} {kind : Kind} {name : String} {a : α}
    (h : t.get? kind name = some a) : ∃ entry ∈ t.entries, entry.2.2 = a := by
  obtain ⟨entry, hentry, ha⟩ := Option.map_eq_some_iff.mp h
  exact ⟨entry, List.mem_reverse.mp (List.mem_of_find?_eq_some hentry), ha⟩

theorem StubTable.isSome_get?_iff {α : Type} {t : StubTable α} {kind : Kind} {name : String} :
    (t.get? kind name).isSome = true ↔
      ∃ declared a, (kind, declared, a) ∈ t.entries ∧ stubKey declared = stubKey name := by
  rw [StubTable.get?, Option.isSome_map, List.find?_isSome]
  constructor
  · rintro ⟨⟨k, declared, a⟩, hmem, h⟩
    rw [Bool.and_eq_true, beq_iff_eq, beq_iff_eq] at h
    exact ⟨declared, a, h.1 ▸ List.mem_reverse.mp hmem, h.2⟩
  · rintro ⟨declared, a, hmem, hkey⟩
    exact ⟨(kind, declared, a), List.mem_reverse.mpr hmem, by simp [hkey]⟩

namespace StubIndex

variable {i : StubIndex} {kind : Kind} {name : String}

/-- An index knows of just the names that it lists. -/
theorem isKnown_presence : (i.presence kind name).isKnown = (i.names.get? kind name).isSome := by
  unfold presence
  cases i.names.get? kind name with
  | none => rfl
  | some number =>
    cases i.version with
    | none => rfl
    | some version =>
      simp only
      split
      · rfl
      · split <;> rfl

/-- Every name of the index is in a file that there is. -/
def InRange (i : StubIndex) : Prop := ∀ entry ∈ i.names.entries, entry.2.2 < i.files.length

theorem InRange.lt_length (hi : i.InRange) {number : Nat}
    (h : i.names.get? kind name = some number) : number < i.files.length := by
  obtain ⟨entry, hentry, rfl⟩ := StubTable.exists_of_get? h
  exact hi entry hentry

/-- An index has a stub for just the names that it calls present. -/
theorem InRange.isSome_stub?_iff (hi : i.InRange) :
    (i.stub? kind name).isSome = true ↔ i.presence kind name = .present := by
  unfold stub? presence
  cases hnumber : i.names.get? kind name with
  | none => simp
  | some number =>
    have hfile := List.getElem?_eq_getElem (hi.lt_length hnumber)
    cases i.version with
    | none => simp [hfile]
    | some version =>
      simp only [hfile]
      split <;> simp

end StubIndex

namespace Stubber

variable {kind : Kind} {name : String}

mutual

/-- The tables and indexes of a tree, in the order in which they are asked. -/
def leaves : Stubber → List Stubber
  | .table stubs => [.table stubs]
  | .index i => [.index i]
  | .firstOf stubbers => leavesOf stubbers

def leavesOf : List Stubber → List Stubber
  | [] => []
  | s :: rest => s.leaves ++ leavesOf rest

end

/-- The names of all indexes of a tree are in files that there are. -/
def InRange (s : Stubber) : Prop := ∀ i, Stubber.index i ∈ s.leaves → i.InRange

mutual

theorem table_or_index_of_mem_leaves {s leaf : Stubber} (h : leaf ∈ s.leaves) :
    (∃ stubs, leaf = .table stubs) ∨ ∃ i, leaf = .index i := by
  cases s with
  | table stubs =>
    rw [leaves, List.mem_singleton] at h
    exact .inl ⟨stubs, h⟩
  | index i =>
    rw [leaves, List.mem_singleton] at h
    exact .inr ⟨i, h⟩
  | firstOf stubbers =>
    rw [leaves] at h
    exact table_or_index_of_mem_leavesOf h

theorem table_or_index_of_mem_leavesOf {stubbers : List Stubber} {leaf : Stubber}
    (h : leaf ∈ leavesOf stubbers) : (∃ stubs, leaf = .table stubs) ∨ ∃ i, leaf = .index i := by
  cases stubbers with
  | nil => simp [leavesOf] at h
  | cons s rest =>
    rw [leavesOf] at h
    rcases List.mem_append.mp h with h | h
    · exact table_or_index_of_mem_leaves h
    · exact table_or_index_of_mem_leavesOf h

end

/-- A table or an index has a stub for just the names that it calls present. -/
theorem InRange.isSome_stub?_leaf_iff {s leaf : Stubber} (hs : s.InRange) (h : leaf ∈ s.leaves) :
    (leaf.stub? kind name).isSome = true ↔ leaf.presence kind name = .present := by
  rcases table_or_index_of_mem_leaves h with ⟨stubs, rfl⟩ | ⟨i, rfl⟩
  · rw [stub?, presence]
    split <;> simp_all
  · rw [stub?, presence]
    exact (hs i h).isSome_stub?_iff

mutual

/-- The stub of a tree is that of the first leaf that has one. -/
theorem stub?_eq_findSome? (s : Stubber) :
    s.stub? kind name = s.leaves.findSome? (·.stub? kind name) := by
  cases s with
  | table stubs | index i =>
    rw [leaves, List.findSome?_singleton]
  | firstOf stubbers =>
    rw [stub?, leaves]
    exact firstStub?_eq_findSome? stubbers

theorem firstStub?_eq_findSome? (stubbers : List Stubber) :
    firstStub? kind name stubbers = (leavesOf stubbers).findSome? (·.stub? kind name) := by
  cases stubbers with
  | nil => rfl
  | cons s rest =>
    rw [firstStub?, leavesOf, List.findSome?_append, stub?_eq_findSome? s,
      firstStub?_eq_findSome? rest]

end

/-- Whether a stubber knows of a name, be it that the name does not exist. -/
def knows (kind : Kind) (name : String) (s : Stubber) : Bool := (s.presence kind name).isKnown

theorem knows_iff {s : Stubber} : s.knows kind name = true ↔ s.presence kind name ≠ .unknown := by
  simp [knows, Presence.isKnown]

theorem not_knows_iff {s : Stubber} :
    s.knows kind name = false ↔ s.presence kind name = .unknown := by
  simp [knows, Presence.isKnown]

/-- What the first of several stubbers says that knows of a name. -/
def knownPresence (kind : Kind) (name : String) (stubbers : List Stubber) : Presence :=
  ((stubbers.find? (·.knows kind name)).map (·.presence kind name)).getD .unknown

theorem knownPresence_singleton (s : Stubber) :
    knownPresence kind name [s] = s.presence kind name := by
  unfold knownPresence knows
  rw [List.find?_singleton]
  cases h : s.presence kind name <;> simp [h, Presence.isKnown]

theorem knownPresence_append (left right : List Stubber) :
    knownPresence kind name (left ++ right) =
      if (knownPresence kind name left).isKnown then knownPresence kind name left
      else knownPresence kind name right := by
  unfold knownPresence
  rw [List.find?_append]
  cases hleft : left.find? (·.knows kind name) with
  | none => rfl
  | some leaf =>
    have hknown : (leaf.presence kind name).isKnown = true :=
      List.find?_some (p := fun s : Stubber => s.knows kind name) hleft
    simp [hknown]

mutual

/-- Whether a name is present in a tree is what the first leaf says that knows of it. -/
theorem presence_eq_knownPresence (s : Stubber) :
    s.presence kind name = knownPresence kind name s.leaves := by
  cases s with
  | table stubs | index i =>
    rw [leaves, knownPresence_singleton]
  | firstOf stubbers =>
    rw [presence, leaves]
    exact firstPresence_eq_knownPresence stubbers

theorem firstPresence_eq_knownPresence (stubbers : List Stubber) :
    firstPresence kind name stubbers = knownPresence kind name (leavesOf stubbers) := by
  cases stubbers with
  | nil => rfl
  | cons s rest =>
    rw [firstPresence, leavesOf, knownPresence_append, presence_eq_knownPresence s,
      firstPresence_eq_knownPresence rest]

end

theorem presence_eq_unknown_iff {s : Stubber} :
    s.presence kind name = .unknown ↔ ∀ leaf ∈ s.leaves, leaf.presence kind name = .unknown := by
  rw [presence_eq_knownPresence, knownPresence]
  cases hleaf : s.leaves.find? (·.knows kind name) with
  | none =>
    have hnone := List.find?_eq_none.mp hleaf
    simp only [Bool.not_eq_true, not_knows_iff] at hnone
    exact ⟨fun _ => hnone, fun _ => rfl⟩
  | some leaf =>
    have hknown : leaf.presence kind name ≠ .unknown :=
      knows_iff.mp (List.find?_some (p := fun s : Stubber => s.knows kind name) hleaf)
    constructor
    · intro h
      exact absurd h hknown
    · intro h
      exact absurd (h leaf (List.mem_of_find?_eq_some hleaf)) hknown

/-- What is known of a name is said by a leaf behind leaves that do not know of it. -/
theorem presence_eq_iff {s : Stubber} {p : Presence} (hp : p ≠ .unknown) :
    s.presence kind name = p ↔
      ∃ before leaf after, s.leaves = before ++ leaf :: after ∧
        (∀ other ∈ before, other.presence kind name = .unknown) ∧
        leaf.presence kind name = p := by
  rw [presence_eq_knownPresence, knownPresence]
  constructor
  · intro h
    cases hleaf : s.leaves.find? (·.knows kind name) with
    | none =>
      rw [hleaf] at h
      exact absurd h.symm hp
    | some leaf =>
      rw [hleaf] at h
      obtain ⟨-, before, after, hsplit, hbefore⟩ := List.find?_eq_some_iff_append.mp hleaf
      refine ⟨before, leaf, after, hsplit, fun other hother => ?_, h⟩
      exact not_knows_iff.mp (by simpa using hbefore other hother)
  · rintro ⟨before, leaf, after, hsplit, hbefore, rfl⟩
    have hleaf : s.leaves.find? (·.knows kind name) = some leaf := by
      refine List.find?_eq_some_iff_append.mpr ⟨knows_iff.mpr hp, before, after, hsplit, ?_⟩
      intro other hother
      simp [not_knows_iff.mpr (hbefore other hother)]
    rw [hleaf]
    rfl

theorem InRange.isSome_stub?_iff {s : Stubber} (hs : s.InRange) :
    (s.stub? kind name).isSome = true ↔ ∃ leaf ∈ s.leaves, leaf.presence kind name = .present := by
  rw [stub?_eq_findSome?, List.findSome?_isSome_iff]
  constructor
  · rintro ⟨leaf, hleaf, hstub⟩
    exact ⟨leaf, hleaf, (hs.isSome_stub?_leaf_iff hleaf).mp hstub⟩
  · rintro ⟨leaf, hleaf, hpresent⟩
    exact ⟨leaf, hleaf, (hs.isSome_stub?_leaf_iff hleaf).mpr hpresent⟩

/-- The first leaf that knows of a name says that it does not exist, and a later one has it. -/
def DeniesPresent (kind : Kind) (name : String) (s : Stubber) : Prop :=
  ∃ before leaf after, s.leaves = before ++ leaf :: after ∧
    (∀ other ∈ before, other.presence kind name = .unknown) ∧
    leaf.presence kind name = .absent ∧
    ∃ other ∈ after, other.presence kind name = .present

theorem DeniesPresent.presence_eq {s : Stubber} (h : s.DeniesPresent kind name) :
    s.presence kind name = .absent := by
  obtain ⟨before, leaf, after, hsplit, hbefore, habsent, -⟩ := h
  exact (presence_eq_iff (by simp)).mpr ⟨before, leaf, after, hsplit, hbefore, habsent⟩

theorem deniesPresent_of_absent {s : Stubber} (h : s.presence kind name = .absent)
    (hpresent : ∃ leaf ∈ s.leaves, leaf.presence kind name = .present) :
    s.DeniesPresent kind name := by
  obtain ⟨before, leaf, after, hsplit, hbefore, habsent⟩ := (presence_eq_iff (by simp)).mp h
  obtain ⟨other, hother, hhas⟩ := hpresent
  refine ⟨before, leaf, after, hsplit, hbefore, habsent, other, ?_, hhas⟩
  rw [hsplit, List.mem_append, List.mem_cons] at hother
  rcases hother with hother | rfl | hother
  · rw [hbefore other hother] at hhas
    cases hhas
  · rw [habsent] at hhas
    cases hhas
  · exact hother

/-- A tree has a stub for a name just if one of its tables and indexes calls the name present. It
calls such a name present itself, unless the first leaf that knows of it says that it does not exist
and a later one has it: then there is a stub for a name that counts as absent. -/
theorem stub_iff_present_unless_denied (s : Stubber) (hs : s.InRange) (kind : Kind)
    (name : String) :
    ((s.stub? kind name).isSome = true ↔
      ∃ leaf ∈ s.leaves, leaf.presence kind name = .present) ∧
    (s.presence kind name = .present ↔
      (s.stub? kind name).isSome = true ∧ ¬ s.DeniesPresent kind name) ∧
    (s.DeniesPresent kind name →
      (s.stub? kind name).isSome = true ∧ s.presence kind name = .absent) := by
  refine ⟨hs.isSome_stub?_iff, ⟨fun h => ⟨?_, ?_⟩, ?_⟩, fun h => ⟨?_, h.presence_eq⟩⟩
  · obtain ⟨before, leaf, after, hsplit, -, hpresent⟩ := (presence_eq_iff (by simp)).mp h
    exact hs.isSome_stub?_iff.mpr ⟨leaf, by simp [hsplit], hpresent⟩
  · intro hdenied
    rw [hdenied.presence_eq] at h
    cases h
  · rintro ⟨hstub, hdenied⟩
    have hleaf := hs.isSome_stub?_iff.mp hstub
    cases hpresence : s.presence kind name with
    | present => rfl
    | absent => exact absurd (deniesPresent_of_absent hpresence hleaf) hdenied
    | unknown =>
      obtain ⟨leaf, hmem, hhas⟩ := hleaf
      rw [presence_eq_unknown_iff.mp hpresence leaf hmem] at hhas
      cases hhas
  · obtain ⟨before, leaf, after, hsplit, -, -, other, hother, hhas⟩ := h
    exact hs.isSome_stub?_iff.mpr ⟨other, by simp [hsplit, hother], hhas⟩

/-- An index for version 8.0 with a function that has been removed, before a table that has a
function of this name. -/
def removedThenListed : Stubber :=
  .firstOf [
    .index ⟨⟨[("standard/f.php", "<?php /** @removed 8.0 */ function f() \x7b\x7d")],
      ⟨[(.function, "f", 0)]⟩⟩, some ⟨8, 0, 0⟩⟩,
    .firstOf [.table ⟨[(.function, "F", ⟨"<?php function f() \x7b\x7d", none, none⟩)]⟩]]

theorem inRange_removedThenListed : removedThenListed.InRange := by
  intro i hi
  simp only [removedThenListed, leaves, leavesOf, List.append_nil, List.singleton_append,
    List.mem_cons, Stubber.index.injEq, reduceCtorEq, List.not_mem_nil, or_false] at hi
  subst hi
  intro entry hentry
  rw [List.mem_singleton.mp hentry]
  exact Nat.one_pos

theorem stub_iff_present_unless_denied_removedThenListed :
    removedThenListed.InRange ∧
      (∃ leaf ∈ removedThenListed.leaves, leaf.presence .function "\\F" = .present) ∧
      removedThenListed.DeniesPresent .function "\\F" := by
  obtain ⟨hleaf, hpresent, -⟩ := stub_iff_present_unless_denied removedThenListed
    inRange_removedThenListed .function "\\F"
  have hstub : (removedThenListed.stub? .function "\\F").isSome = true := by decide +kernel
  have habsent : removedThenListed.presence .function "\\F" ≠ .present := by decide +kernel
  refine ⟨inRange_removedThenListed, hleaf.mp hstub, ?_⟩
  by_cases hdenied : removedThenListed.DeniesPresent .function "\\F"
  · exact hdenied
  · exact absurd (hpresent.mpr ⟨hstub, hdenied⟩) habsent

/-- There is a stub for a function that counts as absent. -/
theorem stub_of_absent_removedThenListed :
    ¬ ∀ (s : Stubber) (kind : Kind) (name : String), s.InRange → kind ≠ .constant →
      ((s.stub? kind name).isSome = true ↔ s.presence kind name = .present) := by
  intro h
  have hiff := h removedThenListed .function "f" inRange_removedThenListed (by simp)
  have hstub : (removedThenListed.stub? .function "f").isSome = true := by decide +kernel
  have habsent : removedThenListed.presence .function "f" = .absent := by decide +kernel
  rw [hiff.mp hstub] at habsent
  cases habsent

end Stubber

end StaticReflection
