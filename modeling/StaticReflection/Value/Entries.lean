import StaticReflection.Value.Basic

/-!
Building arrays. Elements with a key set that key; others are appended under the next integer key,
which is one more than the largest integer key so far. Behind the largest integer there is none.
-/

namespace StaticReflection

/-- An element of an array literal after evaluation. -/
inductive Entry where
  | keyed (key value : Value)
  | append (value : Value)

/-- An array being built: its pairs, the next integer key, and whether every element found a
place. -/
structure ArrayBuilder where
  items : List (Value × Value)
  next : Option Int64
  complete : Bool

namespace ArrayBuilder

def empty : ArrayBuilder := ⟨[], some 0, true⟩

def successor? (i : Int64) : Option Int64 := Number.toInt64? (i.toInt + 1)

/-- Sets the value of a key, in place if the key is there and behind all others if it is not. -/
def set (key value : Value) : List (Value × Value) → List (Value × Value)
  | [] => [(key, value)]
  | (k, v) :: rest => if k.same key then (k, value) :: rest else (k, v) :: set key value rest

def nextAfter (next : Option Int64) : Value → Option Int64
  | .int i =>
    match next, successor? i with
    | some current, some after => some (if current.toInt < after.toInt then after else current)
    | _, _ => none
  | _ => next

def push (b : ArrayBuilder) : Entry → ArrayBuilder
  | .keyed key value => { b with items := set key value b.items, next := nextAfter b.next key }
  | .append value =>
    match b.next with
    | none => { b with complete := false }
    | some i => { b with items := set (.int i) value b.items, next := successor? i }

/-- The array of a list of elements, if every element finds a place. -/
def build? (entries : List Entry) : Option Value :=
  let b := entries.foldl push empty
  if b.complete then some (.array b.items) else none

end ArrayBuilder

/-- The elements that a spread value adds: those of an array, with integer keys given anew, and any
other value as a single one. -/
def Entry.spread : Value → List Entry
  | .array items => items.map fun (key, value) =>
    match key with
    | .int _ => .append value
    | key => .keyed key value
  | value => [.append value]

end StaticReflection
