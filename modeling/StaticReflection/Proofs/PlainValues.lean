import Mathlib.Data.List.Forall2
import StaticReflection.Evaluate
import StaticReflection.Proofs.PrintedArrays
import StaticReflection.Syntax.StringLiteral

/-!
Plain values, the values without doubles and without what is not known, and expressions that come to
them everywhere. A number literal stands for a whole number as long as that fits into 64 bits. The
sign of a negative number is an operator, so the digits of the least integer are those of a whole
number that does not fit: they come to a double.
-/

namespace StaticReflection

open Syntax

/-- Keys of plain arrays. -/
inductive Value.IsKey : Value → Prop
  | int (i : Int64) : IsKey (.int i)
  | string (s : String) : IsKey (.string s)

/-- Null, truth values, integers, strings, and arrays of such values with distinct keys. -/
inductive Value.Plain : Value → Prop
  | null : Plain .null
  | bool (b : Bool) : Plain (.bool b)
  | int (i : Int64) : Plain (.int i)
  | string (s : String) : Plain (.string s)
  | array {items : List (Value × Value)} (hkeys : ∀ item ∈ items, item.1.IsKey)
      (hdistinct : (items.map (·.1)).Nodup) (hvalues : ∀ item ∈ items, item.2.Plain) :
      Plain (.array items)

theorem Value.IsKey.plain {k : Value} (h : k.IsKey) : k.Plain := by
  cases h with
  | int i => exact .int i
  | string s => exact .string s

/-- The double that takes the place of the least integer. -/
def leastAsDouble : Float := -Float.ofScientific 9223372036854775808 false 0

namespace Value

mutual

/-- A plain value as it is read back: in the place of the least integer stands a double. -/
def reread : Value → Value
  | .int i => if i = Int64.minValue then .float leastAsDouble else .int i
  | .array items => .array (rereadItems items)
  | value => value

def rereadItems : List (Value × Value) → List (Value × Value)
  | [] => []
  | (key, value) :: rest => (key.reread, value.reread) :: rereadItems rest

end

mutual

/-- Whether the least integer stands nowhere in a value. -/
def lacksLeast : Value → Bool
  | .int i => i != Int64.minValue
  | .array items => lacksLeastItems items
  | _ => true

def lacksLeastItems : List (Value × Value) → Bool
  | [] => true
  | (key, value) :: rest => key.lacksLeast && value.lacksLeast && lacksLeastItems rest

end

mutual

theorem reread_eq_self_iff (v : Value) : v.reread = v ↔ v.lacksLeast = true := by
  cases v with
  | int i => by_cases h : i = Int64.minValue <;> simp [reread, lacksLeast, h]
  | array items => rw [reread, lacksLeast, array.injEq, rereadItems_eq_self_iff items]
  | _ => simp [reread, lacksLeast]

theorem rereadItems_eq_self_iff (items : List (Value × Value)) :
    rereadItems items = items ↔ lacksLeastItems items = true := by
  match items with
  | [] => simp [rereadItems, lacksLeastItems]
  | (key, value) :: rest =>
    simp [rereadItems, lacksLeastItems, reread_eq_self_iff key, reread_eq_self_iff value,
      rereadItems_eq_self_iff rest, and_assoc]

end

theorem map_fst_rereadItems (items : List (Value × Value)) :
    (rereadItems items).map (·.1) = items.map (·.1.reread) := by
  induction items with
  | nil => rfl
  | cons item rest ih => rw [rereadItems, List.map_cons, List.map_cons, ih]

/-- Keys that differ are still told apart where they are read back. -/
theorem same_reread_of_ne {a b : Value} (ha : a.IsKey) (hb : b.IsKey) (h : a ≠ b) :
    a.reread.same b.reread = false := by
  cases ha with
  | string s =>
    cases hb with
    | string t => simp_all [reread, same]
    | int j => by_cases hj : j = Int64.minValue <;> simp [reread, same, hj]
  | int i =>
    cases hb with
    | string t => by_cases hi : i = Int64.minValue <;> simp [reread, same, hi]
    | int j =>
      by_cases hi : i = Int64.minValue <;> by_cases hj : j = Int64.minValue <;>
        simp_all [reread, same]

end Value

/-! ### Whole numbers in decimal notation -/

namespace Number

theorem isDigit_of_mem_natText {n : Nat} {c : Char} (h : c ∈ natText n) : c.isDigit = true :=
  Nat.isDigit_of_mem_toDigits (by decide) (by decide) h

theorem natText_ne_nil (n : Nat) : natText n ≠ [] := Nat.toDigits_ne_nil

theorem exists_natText_eq_cons (n : Nat) : ∃ c cs, natText n = c :: cs ∧ c.isDigit = true := by
  obtain ⟨c, cs, hcs⟩ := List.exists_cons_of_ne_nil (natText_ne_nil n)
  exact ⟨c, cs, hcs, isDigit_of_mem_natText (hcs ▸ List.mem_cons_self)⟩

/-- No number but zero starts with the digit zero. -/
theorem eq_zero_of_head_natText {n : Nat} (h : (natText n).head? = some '0') : n = 0 := by
  induction n using Nat.strong_induction_on with
  | _ n ih =>
    by_cases hn : n < 10
    · have hdigits : ∀ d < 10, d.digitChar = '0' → d = 0 := by decide
      rw [natText, Nat.toDigits_of_lt_base hn, List.head?_cons, Option.some.injEq] at h
      exact hdigits n hn h
    · rw [natText, Nat.toDigits_of_base_le (by decide) (by omega),
        List.head?_append_of_ne_nil _ Nat.toDigits_ne_nil] at h
      have := ih (n / 10) (by omega) h
      omega

theorem toNat_of_isDigit {c : Char} (h : c.isDigit = true) : 48 ≤ c.toNat ∧ c.toNat ≤ 57 := by
  simpa [Char.isDigit, UInt32.le_iff_toNat_le] using h

theorem toLower_of_isDigit {c : Char} (h : c.isDigit = true) : c.toLower = c := by
  have hhigh : c.val.toNat ≤ 57 := (toNat_of_isDigit h).2
  unfold Char.toLower
  rw [dif_neg]
  rintro ⟨hcapital, -⟩
  have hlow : 65 ≤ c.val.toNat := UInt32.le_iff_toNat_le.mp hcapital
  omega

theorem digitValue?_of_isDigit {c : Char} (h : c.isDigit = true) :
    digitValue? 10 c = some (c.toNat - '0'.toNat) := by
  obtain ⟨hlow, hhigh⟩ := toNat_of_isDigit h
  have hlt : c.toNat - 48 < 10 := by omega
  simp [digitValue?, hlow, hhigh, hlt, Option.filter]

theorem readDigitsFrom_of_digits {cs : List Char} (h : ∀ c ∈ cs, c.isDigit = true) (n : Nat) :
    readDigitsFrom 10 n cs = some (Nat.ofDigitChars 10 cs n) := by
  induction cs generalizing n with
  | nil => rw [readDigitsFrom, Nat.ofDigitChars_nil]
  | cons c cs ih =>
    rw [readDigitsFrom, digitValue?_of_isDigit (h c List.mem_cons_self), Nat.ofDigitChars_cons]
    exact ih (fun d hd => h d (List.mem_cons_of_mem c hd)) _

/-- Digits read back. -/
theorem readDigits?_natText (n : Nat) : readDigits? 10 (natText n) = some n := by
  have hne : (natText n).isEmpty = false := by simp [natText_ne_nil]
  rw [readDigits?, hne, if_neg (by decide),
    readDigitsFrom_of_digits fun c hc => isDigit_of_mem_natText hc, natText,
    Nat.ofDigitChars_ten_toDigits]

/-- The decimal number that digits alone are. -/
def wholeNumber (n : Nat) : DecimalText := ⟨false, natText n, false, [], none⟩

theorem toInt_wholeNumber (n : Nat) : (wholeNumber n).toInt = n := by
  simp [wholeNumber, DecimalText.toInt, DecimalText.mantissa, readDigits?_natText]

theorem takeDecimal?_natText (n : Nat) :
    takeDecimal? (natText n) = some (wholeNumber n, []) := by
  have hsign : takeSign (natText n) = (false, natText n) := by
    unfold takeSign
    split
    · rename_i cs hcs
      exact absurd (isDigit_of_mem_natText (hcs ▸ List.mem_cons_self)) (by decide)
    · rename_i cs hcs
      exact absurd (isDigit_of_mem_natText (hcs ▸ List.mem_cons_self)) (by decide)
    · rfl
  have hall : ∀ c ∈ natText n, c.isDigit = true := fun c hc => isDigit_of_mem_natText hc
  simp [takeDecimal?, hsign, List.takeWhile_eq_self_iff.mpr hall,
    List.dropWhile_eq_nil_iff.mpr hall, natText_ne_nil, takeExponent, wholeNumber]

theorem filter_natText (n : Nat) : (natText n).filter (· != '_') = natText n := by
  refine List.filter_eq_self.mpr fun c hc => ?_
  have hdigit := isDigit_of_mem_natText hc
  rw [bne_iff_ne]
  rintro rfl
  cases hdigit

theorem lower_natText (n : Nat) : Text.lower (natText n) = natText n := by
  rw [Text.lower]
  conv_rhs => rw [← List.map_id (natText n)]
  exact List.map_congr_left fun c hc => toLower_of_isDigit (isDigit_of_mem_natText hc)

/-- A decimal literal of digits alone is the whole number, or the double next to it if it does not
fit. -/
theorem ofDecimal?_natText (n : Nat) :
    ofDecimal? (natText n) = some (match toInt64? n with
      | some i => .int i
      | none => .float (wholeNumber n).toFloat) := by
  obtain ⟨c, cs, hcs, hdigit⟩ := exists_natText_eq_cons n
  have hsign : (c == '-' || c == '+') = false := by
    rw [Bool.or_eq_false_iff, beq_eq_false_iff_ne, beq_eq_false_iff_ne]
    constructor <;> rintro rfl <;> cases hdigit
  have hwhole : (wholeNumber n).isWhole = true := rfl
  rw [ofDecimal?, takeDecimal?_natText, hcs, List.head?_cons]
  simp only [hsign, hwhole, toInt_wholeNumber, Bool.false_eq_true, if_false, if_true]
  cases toInt64? n <;> rfl

theorem ofLiteral?_natText (n : Nat) :
    ofLiteral? (String.ofList (natText n)) = some (match toInt64? n with
      | some i => .int i
      | none => .float (wholeNumber n).toFloat) := by
  -- No base is announced by a zero in front, since zero itself is one digit long.
  have hzero : ∀ c cs, natText n ≠ '0' :: c :: cs := by
    intro c cs h
    have hn : n = 0 := eq_zero_of_head_natText (by rw [h]; rfl)
    rw [hn] at h
    cases h
  rw [ofLiteral?, String.toList_ofList, filter_natText, lower_natText]
  split
  all_goals first
    | exact absurd ‹natText n = _› (hzero _ _)
    | exact ofDecimal?_natText n

/-- The decimal number that a sign and digits are. -/
def wholeNegative (n : Nat) : DecimalText := ⟨true, natText n, false, [], none⟩

theorem takeDecimal?_minus (n : Nat) :
    takeDecimal? ('-' :: natText n) = some (wholeNegative n, []) := by
  have hall : ∀ c ∈ natText n, c.isDigit = true := fun c hc => isDigit_of_mem_natText hc
  simp [takeDecimal?, takeSign, List.takeWhile_eq_self_iff.mpr hall,
    List.dropWhile_eq_nil_iff.mpr hall, natText_ne_nil, takeExponent, wholeNegative]

theorem toInt_wholeNegative (n : Nat) : (wholeNegative n).toInt = -n := by
  simp [wholeNegative, DecimalText.toInt, DecimalText.mantissa, readDigits?_natText]

theorem dropWhile_intText (i : Int) : (intText i).dropWhile isNumericBlank = intText i := by
  cases i with
  | ofNat n =>
    obtain ⟨c, cs, hcs, hdigit⟩ := exists_natText_eq_cons n
    have hblank : isNumericBlank c = false := isNumericBlank_of_isDigit hdigit
    rw [intText, hcs, List.dropWhile_cons_of_neg (by simp [hblank])]
  | negSucc n => rfl

/-- The digits of an integer are a numeric string for that integer. -/
theorem ofString?_intText (i : Int64) (allowTrailing : Bool) :
    ofString? (String.ofList (intText i.toInt)) allowTrailing = some (.int i) := by
  obtain ⟨d, hd, hwhole, hvalue⟩ : ∃ d, takeDecimal? (intText i.toInt) = some (d, []) ∧
      d.isWhole = true ∧ d.toInt = i.toInt := by
    cases hi : i.toInt with
    | ofNat n => exact ⟨wholeNumber n, takeDecimal?_natText n, rfl, toInt_wholeNumber n⟩
    | negSucc n =>
      exact ⟨wholeNegative (n + 1), takeDecimal?_minus (n + 1), rfl, toInt_wholeNegative (n + 1)⟩
  rw [ofString?, String.toList_ofList, dropWhile_intText, hd]
  simp [hwhole, hvalue, toInt64?_toInt]

end Number

/-! ### Expressions that come to a value everywhere -/

/-- In every scope the expression comes to the value, however constants of the class are followed.
-/
def Syntax.Expr.Denotes (e : Expr) (v : Value) : Prop :=
  ∀ s follow, evalWith s follow e = .ok v

/-- The scope of an expression that stands outside of all declarations. -/
def Scope.outermost : Scope := ⟨"", .ofText "", none, none, none, .empty none, none, []⟩

theorem trim_of_forall {p : Char → Bool} {cs : List Char} (h : ∀ c ∈ cs, p c = false) :
    Text.trim p cs = cs := by
  have hdrop : ∀ {ds : List Char}, (∀ c ∈ ds, p c = false) → ds.dropWhile p = ds := by
    intro ds hds
    cases ds with
    | nil => rfl
    | cons c ds => exact List.dropWhile_cons_of_neg (by simp [hds c List.mem_cons_self])
  rw [Text.trim, Text.dropEndWhile, hdrop h, hdrop (by simpa using h), List.reverse_reverse]

theorem denotes_null (span : Span) (kind : LeafKind) :
    (Expr.leaf span kind "null").Denotes .null := by
  intro s follow
  rw [evalWith]
  rfl

theorem denotes_bool (b : Bool) (span : Span) (kind : LeafKind) :
    (Expr.leaf span kind (if b then "true" else "false")).Denotes (.bool b) := by
  intro s follow
  rw [evalWith]
  cases b <;> rfl

/-- A text that starts with a digit is none of the words with a meaning of their own. -/
theorem evalText_of_digit {s : Scope} {offset : Nat} {c : Char} {cs : List Char}
    (hc : c.isDigit = true) {n : Number}
    (hn : Number.ofLiteral? (String.ofList (c :: cs)) = some n) :
    evalText s offset (String.ofList (c :: cs)) = .ok (.ofNumber n) := by
  have hroots : Name.stripRoots (String.ofList (c :: cs)) = String.ofList (c :: cs) := by
    refine Name.stripRoots_of_head ?_
    rw [String.toList_ofList, List.head?_cons, ne_eq, Option.some.injEq]
    rintro rfl
    cases hc
  have hhead : (Name.lower (String.ofList (c :: cs))).toList.head? = some c := by
    simp [Name.lower, Text.lower, Number.toLower_of_isDigit hc]
  unfold evalText
  rw [hroots]
  split
  case h_11 => rw [hn]
  all_goals
    rename_i hword
    rw [hword] at hhead
    cases hhead
    cases hc

theorem denotes_natText (n : Nat) (span : Span) (kind : LeafKind) :
    (Expr.leaf span kind (String.ofList (Number.natText n))).Denotes
      (match Number.toInt64? n with
        | some i => .int i
        | none => .float (Number.wholeNumber n).toFloat) := by
  intro s follow
  have hblank : ∀ c ∈ Number.natText n, Text.isBlank c = false := by
    intro c hc
    have hdigit := Number.toNat_of_isDigit (Number.isDigit_of_mem_natText hc)
    simp only [Text.isBlank, Bool.or_eq_false_iff, Bool.and_eq_false_iff, decide_eq_false_iff_not,
      beq_eq_false_iff_ne, ne_eq]
    omega
  obtain ⟨c, cs, hcs, hdigit⟩ := Number.exists_natText_eq_cons n
  have hliteral := Number.ofLiteral?_natText n
  rw [evalWith, String.toList_ofList, trim_of_forall hblank]
  rw [hcs] at hliteral ⊢
  rw [evalText_of_digit hdigit hliteral]
  cases Number.toInt64? n <;> rfl

/-- A whole number that fits into 64 bits is denoted by its digits. -/
theorem denotes_natural {i : Int64} {n : Nat} (h : i.toInt = Int.ofNat n) (span : Span)
    (kind : LeafKind) :
    (Expr.leaf span kind (String.ofList (Number.natText n))).Denotes (.int i) := by
  have hdenotes := denotes_natText n span kind
  rw [← Int.ofNat_eq_natCast, ← h, Number.toInt64?_toInt] at hdenotes
  exact hdenotes

/-- The digits of the least integer are too many for an integer. -/
theorem toFloat_least :
    (Number.wholeNumber 9223372036854775808).toFloat =
      Float.ofScientific 9223372036854775808 false 0 := by
  have hmantissa : (Number.wholeNumber 9223372036854775808).mantissa = 9223372036854775808 := by
    simp [Number.wholeNumber, Number.DecimalText.mantissa, Number.readDigits?_natText]
  have hscale : (Number.wholeNumber 9223372036854775808).scale = 0 := rfl
  have hlength : (Number.natText 9223372036854775808).length = 19 := by decide
  have hsign : (Number.wholeNumber 9223372036854775808).negative = false := rfl
  rw [Number.DecimalText.toFloat, hmantissa, hscale, hlength, hsign]
  rfl

/-- A negative number is the sign in front of its digits. -/
theorem denotes_negative {i : Int64} {n : Nat} (h : i.toInt = Int.negSucc n) (span inner : Span)
    (kind : LeafKind) :
    (Expr.unary span .minus (.leaf inner kind (String.ofList (Number.natText (n + 1))))).Denotes
      (Value.int i).reread := by
  intro s follow
  have hdigits := denotes_natText (n + 1) inner kind s follow
  rw [evalWith, hdigits, Value.reread]
  by_cases hleast : i = Int64.minValue
  · have hn : n + 1 = 9223372036854775808 := by
      rw [hleast] at h
      have hmin : Int64.minValue.toInt = Int.negSucc 9223372036854775807 := by decide
      rw [hmin, Int.negSucc.injEq] at h
      omega
    have hnone : Number.toInt64? (9223372036854775808 : Nat) = none := by decide
    rw [hn, hnone, if_pos hleast, toFloat_least]
    rfl
  · obtain ⟨j, hj⟩ : ∃ j, Number.toInt64? ((n + 1 : Nat) : Int) = some j := by
      have hne : i.toInt ≠ Int64.minValue.toInt := fun hsame => hleast (Int64.toInt_inj.mp hsame)
      have hlow := Int64.minValue_le_toInt i
      have hmin : Int64.minValue.toInt = -9223372036854775808 := by decide
      have hmax : Int64.maxValue.toInt = 9223372036854775807 := by decide
      rw [Number.toInt64?, if_pos (by omega)]
      exact ⟨_, rfl⟩
    have hnegated : -j.toInt = i.toInt := by
      rw [Number.toInt_of_toInt64? hj, h]
      rfl
    have hnumber : Value.unary? .minus (.int j) = some (.int i) := by
      simp [Value.unary?, Value.toNumber?, Value.negate, Number.ofExact, hnegated,
        Number.toInt64?_toInt, Value.ofNumber]
    rw [hj, if_neg hleast]
    simp only [bind, Except.bind, Value.isResolved, hnumber, if_true, Option.getD_some]
    rfl

theorem Value.quoted_eq (cs : List Char) :
    Value.quoted cs = '\'' :: (Text.escaped '\'' cs ++ ['\'']) := rfl

theorem decodeSingle_escaped (cs : List Char) : decodeSingle (Text.escaped '\'' cs) = cs := by
  induction cs with
  | nil => rfl
  | cons c cs ih =>
    by_cases hc : c = '\\' ∨ c = '\''
    · rw [Text.escaped_cons_of_escape hc]
      rcases hc with rfl | rfl <;> rw [decodeSingle, ih]
    · obtain ⟨hback, hquote⟩ := not_or.mp hc
      rw [Text.escaped_cons_of_plain hback hquote]
      simp [decodeSingle, hback, ih]

/-- A quoted text stands for itself. -/
theorem stringValue?_quoted (cs : List Char) :
    stringValue? (String.ofList (Value.quoted cs)) = some (String.ofList cs) := by
  simp [stringValue?, Value.quoted_eq, decodeSingle_escaped]

theorem denotes_string (s : String) (span : Span) (text : String) :
    (Expr.string span text (some s)).Denotes (.string s) := by
  intro scope follow
  rw [evalWith]

/-! ### Arrays -/

namespace ArrayBuilder

/-- The entry of a pair of key and value. -/
def keyed (item : Value × Value) : Entry := .keyed item.1 item.2

theorem set_of_new {key : Value} {items : List (Value × Value)}
    (h : ∀ item ∈ items, item.1.same key = false) (value : Value) :
    set key value items = items ++ [(key, value)] := by
  induction items with
  | nil => rfl
  | cons item rest ih =>
    have hfirst := h item List.mem_cons_self
    rw [set, hfirst, ih fun other hother => h other (List.mem_cons_of_mem item hother)]
    rfl

/-- Entries with keys that are told apart are taken over as they are. -/
theorem foldl_push_keyed {items : List (Value × Value)}
    (hitems : items.Pairwise fun a b => a.1.same b.1 = false) (b : ArrayBuilder)
    (hnew : ∀ item ∈ items, ∀ old ∈ b.items, old.1.same item.1 = false) :
    ((items.map keyed).foldl push b).items = b.items ++ items ∧
      ((items.map keyed).foldl push b).complete = b.complete := by
  induction items generalizing b with
  | nil => simp
  | cons item rest ih =>
    obtain ⟨hfirst, hrest⟩ := List.pairwise_cons.mp hitems
    have hpush : (b.push (keyed item)).items = b.items ++ [item] :=
      set_of_new (hnew item List.mem_cons_self) item.2
    have hbehind : ∀ later ∈ rest, ∀ old ∈ (b.push (keyed item)).items,
        old.1.same later.1 = false := by
      intro later hlater old hold
      rw [hpush] at hold
      rcases List.mem_append.mp hold with hold | hold
      · exact hnew later (List.mem_cons_of_mem item hlater) old hold
      · rw [List.mem_singleton.mp hold]
        exact hfirst later hlater
    obtain ⟨hall, hcomplete⟩ := ih hrest (b.push (keyed item)) hbehind
    rw [List.map_cons, List.foldl_cons, hall, hcomplete, hpush, List.append_assoc]
    exact ⟨rfl, rfl⟩

theorem build?_keyed {items : List (Value × Value)}
    (h : items.Pairwise fun a b => a.1.same b.1 = false) :
    build? (items.map keyed) = some (.array items) := by
  obtain ⟨hitems, hcomplete⟩ := foldl_push_keyed h empty (by simp [empty])
  rw [build?, hitems, hcomplete]
  rfl

end ArrayBuilder

/-- An element of an array that denotes a pair of key and value as it is read back. -/
def Syntax.ArrayElement.Denotes (item : Value × Value) (element : ArrayElement) : Prop :=
  ∃ key value, element = .pair key value ∧ key.Denotes item.1.reread ∧ value.Denotes item.2.reread

theorem evalElements_of_denotes {items : List (Value × Value)} {elements : List ArrayElement}
    (h : List.Forall₂ ArrayElement.Denotes items elements) (s : Scope)
    (follow : String → Option (Except Error Value)) :
    evalElements s follow elements = .ok ((Value.rereadItems items).map ArrayBuilder.keyed) := by
  induction h with
  | nil => rfl
  | cons hfirst _ ih =>
    obtain ⟨key, value, rfl, hkey, hvalue⟩ := hfirst
    rw [evalElements, hkey s follow, hvalue s follow, ih]
    rfl

/-- The keys of a plain array are told apart where it is read back. -/
theorem pairwise_rereadItems {items : List (Value × Value)} (hkeys : ∀ item ∈ items, item.1.IsKey)
    (hdistinct : (items.map (·.1)).Nodup) :
    (Value.rereadItems items).Pairwise fun a b => a.1.same b.1 = false := by
  induction items with
  | nil => exact .nil
  | cons item rest ih =>
    rw [List.map_cons, List.nodup_cons] at hdistinct
    refine List.pairwise_cons.mpr ⟨fun later hlater => ?_, ?_⟩
    · obtain ⟨other, hother, hkey⟩ : ∃ other ∈ rest, other.1.reread = later.1 := by
        have hmem : later.1 ∈ (Value.rereadItems rest).map (·.1) :=
          List.mem_map.mpr ⟨later, hlater, rfl⟩
        rw [Value.map_fst_rereadItems] at hmem
        exact List.mem_map.mp hmem
      rw [← hkey]
      refine Value.same_reread_of_ne (hkeys item List.mem_cons_self)
        (hkeys other (List.mem_cons_of_mem item hother)) fun hsame => hdistinct.1 ?_
      exact List.mem_map.mpr ⟨other, hother, hsame.symm⟩
    · exact ih (fun other hother => hkeys other (List.mem_cons_of_mem item hother)) hdistinct.2

theorem denotes_array {items : List (Value × Value)} {elements : List ArrayElement}
    (hkeys : ∀ item ∈ items, item.1.IsKey) (hdistinct : (items.map (·.1)).Nodup)
    (h : List.Forall₂ ArrayElement.Denotes items elements) (span : Span) :
    (Expr.array span elements).Denotes (Value.array items).reread := by
  intro s follow
  rw [evalWith, evalElements_of_denotes h, Value.reread]
  simp only [bind, Except.bind, ArrayBuilder.build?_keyed (pairwise_rereadItems hkeys hdistinct),
    Option.getD_some]
  rfl

end StaticReflection
