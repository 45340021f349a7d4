import Mathlib
import StaticReflection.Proofs.IntegerLiterals

/-!
The texts of number literals. A literal has a value just if it is written in one of the notations
when its underscores are dropped, wherever they stand, and if it fits: an integer that is not
decimal has to fit into 64 bits.
-/

namespace StaticReflection.Number

/-! ### Literals without underscores -/

/-- Texts that a literal with a value comes to when its underscores are dropped. An integer has to
fit into 64 bits unless it is decimal; a decimal number with a point or an exponent has no sign. -/
inductive ReadsAsNumber : List Char → Prop
  | integer {radix : Radix} {n : Nat} {cs : List Char} (h : radix.Writes n cs)
    (hfits : radix = .decimal ∨ n < 2 ^ 63) : ReadsAsNumber cs
  | double {d : DecimalText} {cs : List Char} (h : d.SpelledAs cs) (hplus : cs.head? ≠ some '+')
    (hminus : cs.head? ≠ some '-') (hdouble : d.isWhole = false) : ReadsAsNumber cs

/-- The characters that count `d`: a decimal digit, or a letter of either case. -/
theorem toNat_of_digitValue? {base d : Nat} {c : Char} (h : digitValue? base c = some d) :
    (d < 10 ∧ c.toNat = 48 + d) ∨ ∃ k, d = k + 10 ∧ (c.toNat = 97 + k ∨ c.toNat = 65 + k) := by
  obtain ⟨hvalue, -⟩ := Option.filter_eq_some_iff.mp h
  simp only [Char.reduceToNat, Bool.and_eq_true, decide_eq_true_eq] at hvalue
  split at hvalue
  · cases hvalue
    exact .inl (by omega)
  · right
    split at hvalue
    · cases hvalue
      exact ⟨c.toNat - 97, rfl, .inl (by omega)⟩
    · obtain ⟨hcapital, hvalue⟩ := Option.ite_none_right_eq_some.mp hvalue
      cases hvalue
      exact ⟨c.toNat - 65, rfl, .inr (by omega)⟩

theorem digit_of_digitValue? {base d : Nat} (hbase : base ≤ 16) {c : Char}
    (h : digitValue? base c = some d) : d < base ∧ c.toLower = d.digitChar := by
  have hdecimal : ∀ d < 10, (Char.ofNat (48 + d)).toLower = d.digitChar := by decide
  have hsmall : ∀ k < 6, (Char.ofNat (97 + k)).toLower = (k + 10).digitChar := by decide
  have hcapital : ∀ k < 6, (Char.ofNat (65 + k)).toLower = (k + 10).digitChar := by decide
  have hd : d < base := of_decide_eq_true (Option.filter_eq_some_iff.mp h).2
  refine ⟨hd, ?_⟩
  rw [← Char.ofNat_toNat c]
  rcases toNat_of_digitValue? h with ⟨hlow, hc⟩ | ⟨k, rfl, hc | hc⟩
  · rw [hc]
    exact hdecimal d hlow
  · rw [hc]
    exact hsmall k (by omega)
  · rw [hc]
    exact hcapital k (by omega)

theorem exists_spellsDigits_from {base : Nat} (hbase : base ≤ 16) {cs : List Char} (hne : cs ≠ [])
    {m n : Nat} (h : readDigitsFrom base m cs = some n) :
    ∃ ds, SpellsDigits base ds cs ∧ n = base ^ ds.length * m + Nat.ofDigits base ds.reverse := by
  induction cs generalizing m with
  | nil => exact absurd rfl hne
  | cons c cs ih =>
    rw [readDigitsFrom] at h
    cases hc : digitValue? base c with
    | none =>
      rw [hc] at h
      cases h
    | some d =>
      rw [hc] at h
      obtain ⟨hd, hlower⟩ := digit_of_digitValue? hbase hc
      by_cases hlast : cs = []
      · subst hlast
        cases h
        refine ⟨[d], .last hd hlower, ?_⟩
        simp
      · obtain ⟨ds, hds, hn⟩ := ih hlast h
        refine ⟨d :: ds, .next hd hlower 0 hds, ?_⟩
        rw [hn, Nat.ofDigits_reverse_cons, List.length_cons]
        ring

/-- What is read digit by digit is written in digits. -/
theorem exists_spellsDigits {base : Nat} (hbase : base ≤ 16) {cs : List Char} {n : Nat}
    (h : readDigits? base cs = some n) :
    ∃ ds, SpellsDigits base ds cs ∧ Nat.ofDigits base ds.reverse = n := by
  rw [readDigits?] at h
  split at h
  · cases h
  · rename_i hne
    obtain ⟨ds, hds, hn⟩ := exists_spellsDigits_from hbase (by simpa using hne) h
    exact ⟨ds, hds, by simpa using hn.symm⟩

theorem exists_spellsDigits_of_ofDigits? {base : Nat} (hbase : base ≤ 16) {cs : List Char}
    {number : Number} (h : ofDigits? base cs = some number) :
    ∃ ds, SpellsDigits base ds cs ∧ Nat.ofDigits base ds.reverse < 2 ^ 63 := by
  obtain ⟨i, hi, -⟩ := Option.map_eq_some_iff.mp h
  obtain ⟨n, hn, hi⟩ := Option.bind_eq_some_iff.mp hi
  obtain ⟨ds, hds, rfl⟩ := exists_spellsDigits hbase hn
  exact ⟨ds, hds, (isSome_toInt64?_iff _).mp (Option.isSome_of_eq_some hi)⟩

/-! ### Texts without underscores -/

/-- A text in small letters and without its underscores. -/
def stripped (cs : List Char) : List Char := Text.lower (cs.filter (· != '_'))

theorem toLower_of_not_isAlpha {c : Char} (h : c.toLower.isAlpha = false) : c.toLower = c := by
  rw [Char.isAlpha_toLower_eq_isAlpha, Char.isAlpha, Bool.or_eq_false_iff] at h
  exact Char.toLower_eq_of_not_isUpper (by simp [h.1])

theorem isAlpha_eq_false_of_isDigit {c : Char} (h : c.isDigit = true) : c.isAlpha = false := by
  obtain ⟨hlow, hhigh⟩ := toNat_of_isDigit h
  have hall : ∀ n < 58, 48 ≤ n → (Char.ofNat n).isAlpha = false := by decide
  rw [← Char.ofNat_toNat c]
  exact hall c.toNat (by omega) hlow

theorem mem_stripped {c : Char} {cs : List Char} (h : c ∈ stripped cs) :
    ∃ d ∈ cs, d ≠ '_' ∧ d.toLower = c := by
  obtain ⟨d, hd, rfl⟩ := List.mem_map.mp h
  obtain ⟨hmem, hne⟩ := List.mem_filter.mp hd
  exact ⟨d, hmem, by simpa using hne, rfl⟩

theorem stripped_stripped (cs : List Char) : stripped (stripped cs) = stripped cs := by
  have hkept : ∀ c ∈ stripped cs, (c != '_') = true := by
    intro c hc
    obtain ⟨d, -, hd, rfl⟩ := mem_stripped hc
    rw [bne_iff_ne]
    intro hunderscore
    have hsame : d.toLower = d := toLower_of_not_isAlpha (by rw [hunderscore]; decide)
    exact hd (hsame.symm.trans hunderscore)
  rw [stripped, List.filter_eq_self.mpr hkept]
  exact Text.lower_lower _

/-- Neither the underscores of a text nor its capital letters matter. -/
theorem ofLiteral?_stripped (text : String) :
    ofLiteral? (String.ofList (stripped text.toList)) = ofLiteral? text := by
  refine ofLiteral?_congr ?_
  rw [String.toList_ofList]
  exact stripped_stripped text.toList

theorem SpellsDigits.stripped_eq {base : Nat} {ds : List Nat} {cs : List Char}
    (h : SpellsDigits base ds cs) (hbase : base ≤ 16) : stripped cs = ds.map Nat.digitChar :=
  h.lower_filter hbase

theorem isSome_ofDecimal?_iff {cs : List Char} :
    (ofDecimal? cs).isSome = true ↔
      IsDecimal cs ∧ cs.head? ≠ some '+' ∧ cs.head? ≠ some '-' := by
  constructor
  · intro h
    unfold ofDecimal? at h
    split at h
    · rename_i first d hfirst htake
      split at h
      · cases h
      · rename_i hsign
        obtain ⟨number, hnumber, rfl⟩ := spelledAs_of_takeDecimal? htake
        rw [List.append_nil] at hfirst ⊢
        rw [hfirst]
        refine ⟨⟨d, hnumber⟩, ?_, ?_⟩
        · rintro ⟨⟩
          exact hsign rfl
        · rintro ⟨⟩
          exact hsign rfl
    · cases h
  · rintro ⟨⟨d, hd⟩, hplus, hminus⟩
    obtain ⟨d', rest, htake, hrest⟩ := takeDecimal?_longest hd []
    obtain rfl : rest = [] := List.suffix_nil.mp hrest
    rw [List.append_nil] at htake
    cases cs with
    | nil => cases htake
    | cons first cs =>
      have hsign : (first == '-' || first == '+') = false := by
        simp only [List.head?_cons, ne_eq, Option.some.injEq] at hplus hminus
        simp [hplus, hminus]
      unfold ofDecimal?
      rw [htake]
      simp only [List.head?_cons, hsign]
      cases d'.isWhole <;> cases toInt64? d'.toInt <;> rfl

theorem SpellsSign.chars {negative : Bool} {sign : List Char} (h : SpellsSign negative sign) :
    ∀ c ∈ sign, c = '+' ∨ c = '-' := by
  cases h <;> simp

theorem SpellsExponent.chars {exponent : Option Int} {text : List Char}
    (h : SpellsExponent exponent text) :
    ∀ c ∈ text, c.isDigit = true ∨ c ∈ ['e', 'E', '+', '-'] := by
  cases h with
  | missing => simp
  | present he hsign hdigits _ =>
    intro c hc
    rcases List.mem_cons.mp hc with rfl | hc
    · exact .inr (by rcases he with rfl | rfl <;> simp)
    · rcases List.mem_append.mp hc with hc | hc
      · exact .inr (by rcases hsign.chars c hc with rfl | rfl <;> simp)
      · exact .inl (hdigits c hc)

namespace DecimalText.SpelledAs

variable {d : DecimalText} {cs : List Char}

theorem chars (h : d.SpelledAs cs) :
    ∀ c ∈ cs, c.isDigit = true ∨ c ∈ ['.', 'e', 'E', '+', '-'] := by
  obtain ⟨negative, whole, point, fraction, exponent⟩ := d
  obtain ⟨hsign, hwhole, hfraction, -, hexponent⟩ := h
  intro c hc
  simp only [List.mem_append] at hc
  rcases hc with hc | hc | hc | hc
  · exact .inr (by rcases hsign.chars c hc with rfl | rfl <;> simp)
  · exact .inl (hwhole c hc)
  · cases hfraction with
    | missing => cases hc
    | present hdigits =>
      rcases List.mem_cons.mp hc with rfl | hc
      · exact .inr (by simp)
      · exact .inl (hdigits c hc)
  · exact (hexponent.chars c hc).imp_right (List.mem_cons_of_mem _)

/-- A point or an exponent is no digit. -/
theorem exists_not_isDigit (h : d.SpelledAs cs) (hdouble : d.isWhole = false) :
    ∃ c ∈ cs, c.isDigit = false := by
  obtain ⟨-, -, hfraction, -, hexponent⟩ := h
  obtain ⟨negative, whole, point, fraction, exponent⟩ := d
  cases hfraction with
  | present => exact ⟨'.', by simp, rfl⟩
  | missing =>
    cases hexponent with
    | missing => cases hdouble
    | @present e _ _ _ he => exact ⟨e, by simp, by rcases he with rfl | rfl <;> rfl⟩

theorem ne_nil (h : d.SpelledAs cs) : cs ≠ [] := by
  rintro rfl
  obtain ⟨d', rest, htake, -⟩ := takeDecimal?_longest h []
  cases htake

/-- Without a sign there is a digit or a point in front. -/
theorem exists_head (h : d.SpelledAs cs) (hplus : cs.head? ≠ some '+')
    (hminus : cs.head? ≠ some '-') :
    ∃ c, cs.head? = some c ∧ (c.isDigit = true ∨ c = '.') := by
  obtain ⟨c, more, rfl⟩ := List.exists_cons_of_ne_nil h.ne_nil
  refine ⟨c, rfl, ?_⟩
  obtain ⟨negative, whole, point, digits, scale⟩ := d
  generalize hcs : c :: more = cs at h
  obtain @⟨sign, fraction, exponent, hsign, hwhole, hfraction, hsome, -⟩ := h
  cases hsign with
  | plus =>
    cases hcs
    exact absurd rfl hplus
  | minus =>
    cases hcs
    exact absurd rfl hminus
  | missing =>
    exact digit_or_point_of_head hwhole hfraction hsome (congrArg List.head? hcs).symm

/-- Without a sign, a point and an exponent there are just digits. -/
theorem digits_of_isWhole (h : d.SpelledAs cs) (hplus : cs.head? ≠ some '+')
    (hminus : cs.head? ≠ some '-') (hdigits : d.isWhole = true) :
    ∀ c ∈ cs, c.isDigit = true := by
  obtain ⟨hsign, hwhole, hfraction, -, hexponent⟩ := h
  obtain ⟨negative, whole, point, fraction, exponent⟩ := d
  cases hfraction with
  | present => cases hdigits
  | missing =>
    cases hexponent with
    | present => cases hdigits
    | missing =>
      cases hsign with
      | plus => exact absurd rfl hplus
      | minus => exact absurd rfl hminus
      | missing => simpa using hwhole

end DecimalText.SpelledAs

theorem readsAsNumber_of_ofDigits? (radix : Radix) {mark : Char} (hmark : radix.mark? = some mark)
    {cs : List Char} (h : (ofDigits? radix.base cs).isSome = true) :
    ReadsAsNumber ('0' :: mark :: cs) := by
  obtain ⟨number, hnumber⟩ := Option.isSome_iff_exists.mp h
  obtain ⟨ds, hds, hfits⟩ := exists_spellsDigits_of_ofDigits? radix.base_le hnumber
  have hlower : mark.toLower = mark := by
    cases radix <;> cases hmark <;> rfl
  exact .integer (.marked hmark hlower hds) (.inr hfits)

/-- All digits without underscores in between. -/
theorem readsAsNumber_of_digits {cs : List Char} (hcs : stripped cs = cs) (hne : cs ≠ [])
    (hdigits : ∀ c ∈ cs, c.isDigit = true) (hzero : cs.head? = some '0' → cs = ['0']) :
    ReadsAsNumber cs := by
  have hread : readDigits? 10 cs = some (Nat.ofDigitChars 10 cs 0) := by
    rw [readDigits?_of_digits hdigits, if_neg hne]
  obtain ⟨ds, hds, -⟩ := exists_spellsDigits (by decide) hread
  refine .integer (.decimal hds fun hhead => ?_) (.inl rfl)
  obtain rfl : cs = ds.map Nat.digitChar := hcs.symm.trans (hds.stripped_eq (by decide))
  obtain ⟨more, rfl⟩ := List.head?_eq_some_iff.mp hhead
  simpa using hzero rfl

theorem readsAsNumber_of_ofDecimal? {cs : List Char} (hcs : stripped cs = cs)
    (h : (ofDecimal? cs).isSome = true)
    (hzero : (∀ c ∈ cs, c.isDigit = true) → cs.head? = some '0' → cs = ['0']) :
    ReadsAsNumber cs := by
  obtain ⟨⟨d, hd⟩, hplus, hminus⟩ := isSome_ofDecimal?_iff.mp h
  cases hwhole : d.isWhole with
  | false => exact .double hd hplus hminus hwhole
  | true =>
    have hdigits := hd.digits_of_isWhole hplus hminus hwhole
    exact readsAsNumber_of_digits hcs hd.ne_nil hdigits (hzero hdigits)

/-- The text of a double is read as one. -/
theorem isSome_ofLiteral?_of_double {text : String} {d : DecimalText}
    (h : d.SpelledAs (stripped text.toList)) (hplus : (stripped text.toList).head? ≠ some '+')
    (hminus : (stripped text.toList).head? ≠ some '-') (hdouble : d.isWhole = false) :
    (ofLiteral? text).isSome = true := by
  have hdecimal := isSome_ofDecimal?_iff.mpr ⟨⟨d, h⟩, hplus, hminus⟩
  -- No mark of another notation is among the characters of a decimal number.
  have hmark : ∀ c more, stripped text.toList = '0' :: c :: more → c ∉ ['x', 'b', 'o'] := by
    intro c more heq hc
    have hchar := h.chars c (by simp [heq])
    simp only [List.mem_cons, List.not_mem_nil, or_false] at hc
    rcases hc with rfl | rfl | rfl <;> revert hchar <;> decide
  rw [ofLiteral?]
  split
  case h_1 _ heq => exact absurd (by simp) (hmark _ _ heq)
  case h_2 _ heq => exact absurd (by simp) (hmark _ _ heq)
  case h_3 _ heq => exact absurd (by simp) (hmark _ _ heq)
  case h_4 c digits _ _ _ heq =>
    rw [stripped, heq] at h hdecimal
    obtain ⟨other, hmem, hother⟩ := h.exists_not_isDigit hdouble
    rw [if_neg]
    · exact hdecimal
    · rw [List.all_eq_true]
      intro hall
      rcases List.mem_cons.mp hmem with rfl | hmem
      · cases hother
      · exact Bool.false_ne_true (hother.symm.trans (hall other hmem))
  case h_5 => exact hdecimal

theorem readsAsNumber_of_ofLiteral? {text : String} (h : (ofLiteral? text).isSome = true) :
    ReadsAsNumber (stripped text.toList) := by
  have hsame := stripped_stripped text.toList
  rw [ofLiteral?] at h
  unfold stripped at hsame ⊢
  split at h
  case h_1 _ heq =>
    rw [heq]
    exact readsAsNumber_of_ofDigits? .hexadecimal rfl h
  case h_2 _ heq =>
    rw [heq]
    exact readsAsNumber_of_ofDigits? .binary rfl h
  case h_3 _ heq =>
    rw [heq]
    exact readsAsNumber_of_ofDigits? .octal rfl h
  case h_4 c digits _ _ _ heq =>
    rw [heq] at hsame ⊢
    split at h
    · obtain ⟨number, hnumber⟩ := Option.isSome_iff_exists.mp h
      obtain ⟨ds, hds, hfits⟩ := exists_spellsDigits_of_ofDigits? (by decide) hnumber
      exact .integer (.leadingZero 0 hds) (.inr hfits)
    · rename_i hother
      refine readsAsNumber_of_ofDecimal? hsame h fun hdigits => absurd ?_ hother
      exact List.all_eq_true.mpr fun c hc => hdigits c (List.mem_cons_of_mem _ hc)
  case h_5 _ hother =>
    refine readsAsNumber_of_ofDecimal? hsame h fun _ hhead => ?_
    obtain ⟨more, hmore⟩ := List.head?_eq_some_iff.mp hhead
    cases more with
    | nil => exact hmore
    | cons c digits => exact absurd hmore (hother c digits)

/-- A text is read as a number just if it is one without its underscores. -/
theorem isSome_ofLiteral?_iff (text : String) :
    (ofLiteral? text).isSome = true ↔ ReadsAsNumber (stripped text.toList) := by
  refine ⟨readsAsNumber_of_ofLiteral?, fun h => ?_⟩
  generalize hcs : stripped text.toList = cs at h
  cases h with
  | @integer radix n cs h hfits =>
    rw [← ofLiteral?_stripped, hcs, ofLiteral?_of_writes (by rwa [String.toList_ofList])]
    rcases hfits with rfl | hfits
    · cases toInt64? n <;> rfl
    · obtain ⟨i, hi⟩ := Option.isSome_iff_exists.mp ((isSome_toInt64?_iff n).mpr hfits)
      rw [hi]
      rfl
  | double h hplus hminus hdouble =>
    subst hcs
    exact isSome_ofLiteral?_of_double h hplus hminus hdouble

/-! ### Literals with underscores -/

/-- The number literals: whole numbers in each notation, and decimal numbers without a sign that may
have underscores behind their first character. -/
inductive SpellsLiteral : List Char → Prop
  | whole {radix : Radix} {n : Nat} {cs : List Char} (h : radix.Writes n cs) : SpellsLiteral cs
  | decimal {d : DecimalText} {cs : List Char} (h : d.SpelledAs (cs.filter (· != '_')))
    (hplus : cs.head? ≠ some '+') (hminus : cs.head? ≠ some '-')
    (hunderscore : cs.head? ≠ some '_') : SpellsLiteral cs

theorem isAlphanum_of_toLower {c : Char} (h : c.toLower.isAlphanum = true) :
    c.isAlphanum = true := by
  by_cases hcapital : c.isUpper = true
  · simp [Char.isAlphanum, Char.isAlpha, hcapital]
  · rwa [Char.toLower_eq_of_not_isUpper hcapital] at h

theorem SpellsDigits.chars {base : Nat} {ds : List Nat} {cs : List Char}
    (h : SpellsDigits base ds cs) (hbase : base ≤ 16) :
    ∀ c ∈ cs, c.isAlphanum = true ∨ c = '_' := by
  have hdigit : ∀ d < 16, d.digitChar.isAlphanum = true := by decide
  induction h with
  | @last d c hd hc =>
    intro e he
    cases List.mem_singleton.mp he
    exact .inl (isAlphanum_of_toLower (by rw [hc]; exact hdigit d (by omega)))
  | @next d c ds cs hd hc gap _ ih =>
    intro e he
    rcases List.mem_cons.mp he with rfl | he
    · exact .inl (isAlphanum_of_toLower (by rw [hc]; exact hdigit d (by omega)))
    · rcases List.mem_append.mp he with he | he
      · exact .inr (List.eq_of_mem_replicate he)
      · exact ih e he

theorem SpellsDigits.exists_head {ds : List Nat} {cs : List Char} (h : SpellsDigits 10 ds cs) :
    ∃ c, cs.head? = some c ∧ c.isDigit = true := by
  have hdigit : ∀ d < 10, d.digitChar.isAlpha = false ∧ d.digitChar.isDigit = true := by decide
  cases h with
  | @last d c hd hc | @next d c _ _ hd hc =>
    have hsame := toLower_of_not_isAlpha (hc ▸ (hdigit d hd).1)
    exact ⟨c, rfl, by rw [← hsame, hc]; exact (hdigit d hd).2⟩

namespace Radix.Writes

variable {radix : Radix} {n : Nat} {cs : List Char}

theorem chars (h : radix.Writes n cs) : ∀ c ∈ cs, c.isAlphanum = true ∨ c = '_' := by
  have hzero : '0'.isAlphanum = true := rfl
  cases h with
  | decimal h => exact h.chars (by decide)
  | @marked _ mark letter _ _ hmark hletter h =>
    have hmark : mark.isAlphanum = true := by
      cases radix <;> cases hmark <;> rfl
    have hdigits := h.chars radix.base_le
    simp only [List.mem_cons]
    rintro c (rfl | rfl | hc)
    · exact .inl hzero
    · exact .inl (isAlphanum_of_toLower (hletter ▸ hmark))
    · exact hdigits c hc
  | leadingZero gap h =>
    have hdigits := h.chars (by decide)
    simp only [List.mem_cons, List.mem_append]
    rintro c (rfl | hc | hc)
    · exact .inl hzero
    · exact .inr (List.eq_of_mem_replicate hc)
    · exact hdigits c hc

theorem exists_head (h : radix.Writes n cs) : ∃ c, cs.head? = some c ∧ c.isDigit = true := by
  cases h with
  | decimal h => exact h.exists_head
  | marked | leadingZero => exact ⟨'0', rfl, rfl⟩

end Radix.Writes

namespace SpellsLiteral

variable {cs : List Char}

theorem chars (h : SpellsLiteral cs) :
    ∀ c ∈ cs, c.isAlphanum = true ∨ c ∈ ['_', '.', '+', '-'] := by
  intro c hc
  cases h with
  | whole h => exact (h.chars c hc).imp_right (by rintro rfl; simp)
  | decimal h =>
    by_cases hunderscore : c = '_'
    · exact .inr (by simp [hunderscore])
    · have hkept : c ∈ cs.filter (· != '_') := List.mem_filter.mpr ⟨hc, by simpa using hunderscore⟩
      rcases h.chars c hkept with hdigit | hother
      · exact .inl (by simp [Char.isAlphanum, hdigit])
      · simp only [List.mem_cons, List.not_mem_nil, or_false] at hother
        rcases hother with rfl | rfl | rfl | rfl | rfl <;> decide

theorem exists_head (h : SpellsLiteral cs) :
    ∃ c, cs.head? = some c ∧ (c.isDigit = true ∨ c = '.') := by
  cases h with
  | whole h =>
    obtain ⟨c, hc, hdigit⟩ := h.exists_head
    exact ⟨c, hc, .inl hdigit⟩
  | decimal h hplus hminus hunderscore =>
    cases cs with
    | nil => exact absurd rfl h.ne_nil
    | cons c cs =>
      have hkept : (c :: cs).filter (· != '_') = c :: cs.filter (· != '_') :=
        List.filter_cons_of_pos (by simpa using hunderscore)
      rw [hkept] at h
      exact h.exists_head hplus hminus

end SpellsLiteral

/-- Digits that are read as a number are a literal. -/
theorem ReadsAsNumber.spellsLiteral {cs : List Char} (h : ReadsAsNumber cs) : SpellsLiteral cs := by
  cases h with
  | integer h => exact .whole h
  | double h hplus hminus =>
    have hkept : ∀ c ∈ cs, (c != '_') = true := by
      intro c hc
      rcases h.chars c hc with hdigit | hother
      · rw [bne_iff_ne]
        rintro rfl
        cases hdigit
      · simp only [List.mem_cons, List.not_mem_nil, or_false] at hother
        rcases hother with rfl | rfl | rfl | rfl | rfl <;> rfl
    refine .decimal (by rwa [List.filter_eq_self.mpr hkept]) hplus hminus fun hhead => ?_
    cases hkept '_' (List.mem_of_head? hhead)

end StaticReflection.Number
