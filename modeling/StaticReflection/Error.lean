import StaticReflection.Identifier

/-!
The ways in which reflection can fail, and the message for each. A failure to parse and an invalid
configuration carry a detail in free words.
-/

namespace StaticReflection

/-- Why a file cannot be read or examined. -/
inductive FileFault where
  | notFound
  | notDirectory
  | isDirectory
  | tooManyLinks
  | nameTooLong
  | zeroByte
  | notText
  deriving DecidableEq, Repr

def FileFault.message : FileFault → String
  | .notFound => "No such file or directory (os error 2)"
  | .notDirectory => "Not a directory (os error 20)"
  | .isDirectory => "Is a directory (os error 21)"
  | .tooManyLinks => "Too many levels of symbolic links (os error 40)"
  | .nameTooLong => "File name too long (os error 36)"
  | .zeroByte => "file name contained an unexpected NUL byte"
  | .notText => "stream did not contain valid UTF-8"

/-- Why a path is no place to look in. -/
inductive PathFault where
  | system (fault : FileFault)
  | notAFile
  | notADirectory
  | autoloadedNotAFile
  deriving DecidableEq, Repr

def PathFault.message : PathFault → String
  | .system fault => fault.message
  | .notAFile => "not a file"
  | .notADirectory => "not a directory"
  | .autoloadedNotAFile => "autoloader returned a path that is not a file"

/-- The declarations that a builder of reflections takes. -/
inductive NodeRole where
  | classLike
  | functionLike
  | constant
  | namedDefine
  deriving DecidableEq, Repr

def NodeRole.describe : NodeRole → String
  | .classLike => "a class, interface, trait or enum"
  | .functionLike => "a function, closure or arrow function"
  | .constant => "a const statement or define() call"
  | .namedDefine => "a define() call with a literal name"

inductive Error where
  | identifierNotFound (id : Identifier)
  | twoClosuresOnSameLine (file : String) (line : Nat)
  | evaledClosureCannotBeLocated
  | parseFailure (file : Option String) (source : String) (detail : String)
  | invalidFileLocation (path : String) (fault : PathFault)
  | invalidDirectory (path : String) (fault : PathFault)
  | unreadable (path : String) (fault : FileFault)
  | noSelf
  | noFileName
  | wrongNode (expected : NodeRole) (found : String)
  | unexpectedKind (expected found : Kind)
  | invalidConfig (path : String) (detail : String)
  deriving DecidableEq, Repr

/-- The first twenty characters of a source, with dots if there are more. -/
def excerpt (source : String) : String :=
  let head := source.toList.take 20
  String.ofList head ++ if source.toList.length > 20 then "..." else ""

namespace Error

/-- Whether the failure is that nothing of that name was found. -/
def isNotFound : Error → Bool
  | .identifierNotFound _ => true
  | _ => false

def message : Error → String
  | .identifierNotFound id =>
    id.kind.word ++ " \"" ++ id.name ++ "\" could not be found in the located source"
  | .twoClosuresOnSameLine file line => "Two closures on line " ++ line.repr ++ " in " ++ file
  | .evaledClosureCannotBeLocated => "Evaled closure cannot be located"
  | .parseFailure file source detail =>
    "AST failed to parse in located source" ++
      (match file with
        | some name => " " ++ name
        | none => "") ++
      ": " ++ detail ++ " (source starts with \"" ++ excerpt source ++ "\")"
  | .invalidFileLocation path fault => "Invalid file location " ++ path ++ ": " ++ fault.message
  | .invalidDirectory path fault => "Invalid directory " ++ path ++ ": " ++ fault.message
  | .unreadable path fault => "Failed to read " ++ path ++ ": " ++ fault.message
  | .noSelf => "The current context does not have a class for self"
  | .noFileName => "The current context does not have a filename"
  | .wrongNode expected found => "Node must be " ++ expected.describe ++ ", was " ++ found
  | .unexpectedKind expected found =>
    "Expected a " ++ expected.word ++ " reflection, got a " ++ found.word ++ " reflection"
  | .invalidConfig path detail => "Invalid configuration in " ++ path ++ ": " ++ detail

/-- Where two steps succeed, the first one does. -/
theorem ok_of_bind {α β : Type} {r : Except Error α} {next : α → Except Error β} {b : β}
    (h : (r >>= next) = .ok b) : ∃ a, r = .ok a ∧ next a = .ok b := by
  cases r with
  | error e => cases h
  | ok a => exact ⟨a, rfl, h⟩

/-- Where a step succeeds for each of a list, each result comes from one of the list. -/
theorem exists_of_mem_mapM {α β : Type} {f : α → Except Error β} {xs : List α} {ys : List β}
    (h : xs.mapM f = .ok ys) {y : β} (hy : y ∈ ys) : ∃ x ∈ xs, f x = .ok y := by
  induction xs generalizing ys with
  | nil =>
    rw [List.mapM_nil] at h
    cases h
    cases hy
  | cons x rest ih =>
    rw [List.mapM_cons] at h
    obtain ⟨first, hfirst, h⟩ := ok_of_bind h
    obtain ⟨others, hothers, h⟩ := ok_of_bind h
    cases h
    rcases List.mem_cons.mp hy with rfl | hy
    · exact ⟨x, List.mem_cons_self, hfirst⟩
    · obtain ⟨z, hz, hfz⟩ := ih hothers hy
      exact ⟨z, List.mem_cons_of_mem _ hz, hfz⟩

/-- Where two steps fail, either the first one does, or the second one does after it. -/
theorem error_of_bind {α β : Type} {r : Except Error α} {next : α → Except Error β} {e : Error}
    (h : (r >>= next) = .error e) : r = .error e ∨ ∃ a, r = .ok a ∧ next a = .error e := by
  cases r with
  | error e' =>
    cases h
    exact .inl rfl
  | ok a => exact .inr ⟨a, rfl, h⟩

theorem error_of_map {α β : Type} {f : α → β} {r : Except Error α} {e : Error}
    (h : r.map f = .error e) : r = .error e := by
  cases r with
  | error e' => exact congrArg Except.error (Except.error.inj h)
  | ok a => cases h

/-- Where a step fails for a list, it fails for one of the list. -/
theorem exists_error_of_mapM {α β : Type} {f : α → Except Error β} {xs : List α} {e : Error}
    (h : xs.mapM f = .error e) : ∃ x ∈ xs, f x = .error e := by
  induction xs with
  | nil =>
    rw [List.mapM_nil] at h
    cases h
  | cons x rest ih =>
    rw [List.mapM_cons] at h
    rcases error_of_bind h with h | ⟨y, -, h⟩
    · exact ⟨x, List.mem_cons_self, h⟩
    · rcases error_of_bind h with h | ⟨ys, -, h⟩
      · obtain ⟨z, hz, hfz⟩ := ih h
        exact ⟨z, List.mem_cons_of_mem _ hz, hfz⟩
      · cases h

end Error

end StaticReflection
