/-!
Whole numbers in positional notation, and the whole numbers that fit into 64 bits.
-/

namespace StaticReflection.Number

/-- What a digit counts in a base; letters of either case are the digits from ten on. -/
def digitValue? (base : Nat) (c : Char) : Option Nat :=
  let n := c.toNat
  let value? :=
    if '0'.toNat ≤ n && n ≤ '9'.toNat then some (n - '0'.toNat)
    else if 'a'.toNat ≤ n && n ≤ 'z'.toNat then some (n - 'a'.toNat + 10)
    else if 'A'.toNat ≤ n && n ≤ 'Z'.toNat then some (n - 'A'.toNat + 10)
    else none
  value?.filter (· < base)

def readDigitsFrom (base : Nat) : Nat → List Char → Option Nat
  | n, [] => some n
  | n, c :: cs =>
    match digitValue? base c with
    | some d => readDigitsFrom base (base * n + d) cs
    | none => none

def readDigits? (base : Nat) (cs : List Char) : Option Nat :=
  if cs.isEmpty then none else readDigitsFrom base 0 cs

/-- The 64-bit integer with this value, if there is one. -/
def toInt64? (i : Int) : Option Int64 :=
  if Int64.minValue.toInt ≤ i ∧ i ≤ Int64.maxValue.toInt then some (Int64.ofInt i) else none

def natText (n : Nat) : List Char := Nat.toDigits 10 n

def intText : Int → List Char
  | .ofNat n => natText n
  | .negSucc n => '-' :: natText (n + 1)

theorem toInt64?_toInt (i : Int64) : toInt64? i.toInt = some i := by
  have h₁ := Int64.minValue_le_toInt i
  have h₂ := Int64.toInt_le i
  simp only [toInt64?]
  rw [if_pos]
  · simp
  · constructor
    · exact h₁
    · exact h₂

theorem toInt_of_toInt64? {i : Int} {j : Int64} (h : toInt64? i = some j) : j.toInt = i := by
  simp only [toInt64?] at h
  split at h
  · cases h
    rename_i hr
    rw [Int64.toInt_ofInt_of_le]
    · exact hr.1
    · exact Int.lt_of_le_of_lt hr.2 (by decide)
  · cases h

end StaticReflection.Number
