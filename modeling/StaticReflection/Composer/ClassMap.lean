import StaticReflection.Name

/-!
Class maps: names of classes with the files that declare them.
-/

namespace StaticReflection

/-- Class names with files. A name appears once. -/
structure ClassMap where
  entries : List (String × String)
  deriving DecidableEq, Repr

namespace ClassMap

/-- The map of a list of pairs, of which a later one replaces an earlier one of the same name. -/
def ofList (pairs : List (String × String)) : ClassMap :=
  ⟨pairs.foldl (fun entries pair => entries.filter (·.1 != pair.1) ++ [pair]) []⟩

def isEmpty (m : ClassMap) : Bool := m.entries.isEmpty

/-- The file of a class: that of the name as written, else that of a name in another case. -/
def file? (m : ClassMap) (className : String) : Option String :=
  let name := Name.stripRoots className
  match m.entries.lookup name with
  | some path => some path
  | none => (m.entries.find? fun entry => Name.sameLetters entry.1 name).map (·.2)

end ClassMap

end StaticReflection
