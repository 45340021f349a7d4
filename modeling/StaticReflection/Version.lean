import StaticReflection.Number.Digits
import StaticReflection.Text.Blank
import StaticReflection.Text.Cut

/-!
Versions of the language with a major, a minor and a patch number.
-/

namespace StaticReflection

/-- A version; each part is a 32-bit number. -/
structure PhpVersion where
  major : UInt32
  minor : UInt32
  patch : UInt32
  deriving DecidableEq, Repr

namespace PhpVersion

/-- The version as `major.minor.patch`. -/
def text (v : PhpVersion) : String :=
  v.major.toNat.repr ++ "." ++ v.minor.toNat.repr ++ "." ++ v.patch.toNat.repr

/-- Versions are ordered by their parts, the major one first. -/
def le (a b : PhpVersion) : Bool :=
  a.major < b.major ||
    (a.major == b.major && (a.minor < b.minor || (a.minor == b.minor && a.patch ≤ b.patch)))

def lt (a b : PhpVersion) : Bool := !le b a

def readPart? (cs : List Char) : Option UInt32 :=
  let digits := match cs with
    | '+' :: rest => rest
    | _ => cs
  match Number.readDigits? 10 digits with
  | some n => if n < UInt32.size then some (UInt32.ofNat n) else none
  | none => none

/-- Reads a version. Missing parts are zero and parts after the third are ignored. -/
def read? (text : String) : Option PhpVersion :=
  match Text.pieces '.' (Text.trim Text.isBlank text.toList) with
  | [] => none
  | [major] => do return ⟨← readPart? major, 0, 0⟩
  | [major, minor] => do return ⟨← readPart? major, ← readPart? minor, 0⟩
  | major :: minor :: patch :: _ => do
    return ⟨← readPart? major, ← readPart? minor, ← readPart? patch⟩

def invalidMessage (text : String) : String := "invalid PHP version \"" ++ text ++ "\""

theorem le_refl (v : PhpVersion) : le v v = true := by
  simp [le]

end PhpVersion

end StaticReflection
