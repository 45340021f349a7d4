import StaticReflection.Declaration
import StaticReflection.DocComment
import StaticReflection.Version

/-!
In which versions a stub's declaration exists. The tags of its doc comment say since when, and from
which version on it is removed; an attribute says from which version to which it is there.
-/

namespace StaticReflection

open Syntax Text

/-- The versions of a declaration: the first, the one that removed it, and the last line of
versions it exists in. -/
structure Availability where
  since : Option PhpVersion
  removed : Option PhpVersion
  last : Option PhpVersion
  deriving DecidableEq, Repr

namespace Availability

def always : Availability := ⟨none, none, none⟩

/-- Whether a declaration exists in a version. Of the last line of versions the patch level does
not count. -/
def includes (a : Availability) (v : PhpVersion) : Bool :=
  let early := a.since.any v.lt
  let gone := a.removed.any (·.le v)
  let late := a.last.any fun last =>
    last.major < v.major || (last.major == v.major && last.minor < v.minor)
  !early && !gone && !late

/-- The version that the first word of a text is. -/
def firstVersion? (text : List Char) : Option PhpVersion :=
  let word := (text.dropWhile isBlank).takeWhile (!isBlank ·)
  if word.isEmpty then none else PhpVersion.read? (String.ofList word)

/-- The text without as many openings of a doc comment as stand in front. -/
def dropOpenings : List Char → List Char
  | '/' :: '*' :: '*' :: rest => dropOpenings rest
  | cs => cs

/-- What a line of a doc comment says, without its marks. -/
def lineContent (line : List Char) : List Char :=
  trim isBlank ((dropOpenings (trim isBlank line)).dropWhile (· == '*'))

/-- Takes a line of a doc comment into account. The first tag with a version counts. -/
def addLine (a : Availability) (line : List Char) : Availability :=
  let content := lineContent line
  match stripHead? "@since".toList content with
  | some rest => { a with since := a.since.or (firstVersion? rest) }
  | none =>
    match stripHead? "@removed".toList content with
    | some rest => { a with removed := a.removed.or (firstVersion? rest) }
    | none => a

def ofDoc (doc : String) : Availability := (lines doc.toList).foldl addLine always

def attributeMark : List Char := "PhpStormStubsElementAvailable(".toList

/-- Takes an argument of the attribute into account. Arguments without a name go by position. -/
def addArgument (a : Availability) (position : Nat) (argument : List Char) : Availability :=
  let (name, written) := match cutFirst ':' argument with
    | some (name, value) => (some (String.ofList (trim isBlank name)), value)
    | none => (none, argument)
  let unquoted := trim (fun c => c == '\'' || c == '"') (trim isBlank written)
  let version := PhpVersion.read? (String.ofList unquoted)
  if name = some "from" ∨ (name = none ∧ position = 0) then
    { a with since := version.or a.since }
  else if name = some "to" ∨ (name = none ∧ position = 1) then { a with last := version }
  else a

/-- Takes arguments of the attribute into account, the first of which has a position. -/
def addArguments (a : Availability) (position : Nat) : List (List Char) → Availability
  | [] => a
  | argument :: rest => addArguments (a.addArgument position argument) (position + 1) rest

/-- Takes the first such attribute among attributes into account. -/
def addAttributes (a : Availability) (attributes : List Char) : Availability :=
  match cutAt attributeMark attributes with
  | some (_, rest) => a.addArguments 0 (pieces ',' (rest.takeWhile (· != ')')))
  | none => a

def describedBy (doc : Option String) (attributes : List Char) : Availability :=
  ((doc.map ofDoc).getD always).addAttributes attributes

def opensAttribute (line : List Char) : Bool := (stripHead? ['#', '['] line).isSome

/-- The lines of attributes of a declaration: those right before it, and its own first ones. -/
def attributesOf (source : String) (span : Span) : List Char :=
  let before := (takeBytes? source.toList span.start).getD []
  let above := (((lines before).reverse.map (trim isBlank)).dropWhile (·.isEmpty)).takeWhile
    opensAttribute
  let own := ((lines (under source span).toList).map (trim isBlank)).takeWhile opensAttribute
  join ['\n'] (above.reverse ++ own)

/-- The availability of a declaration in a source with these trivia. -/
def ofDeclaration (source : String) (trivia : List Trivia) (d : Declaration) : Availability :=
  describedBy (DocComment.before? source trivia d.node.span.start)
    (attributesOf source d.node.span)

end Availability

end StaticReflection
