import AsnModel.Proofs.Text.Numeral
import Mathlib.Data.List.TakeWhile
import Mathlib.Data.Nat.Digits.Defs

/-!
# What is read as a natural number

A text is read as a number exactly if it is a numeral of this number between blanks: digits, which
may have a plus sign in front of them, whose places add up to the number. Reading the digits one
after the other into a word of 64 bits, and giving up where the word would overflow, comes to the
same as comparing the number with the largest one that fits.

## Main definitions

* `placeValue` — the number that digits stand for.
* `IsNumeral` — a text spells a natural number.
* `appendDigit?`, `word64?` — reading a number digit by digit in 64 bits.
-/

namespace AsnModel.Text

/-! ## Digits -/

/-- The number that a digit stands for. -/
def digitValue (c : Char) : Nat := c.toNat - '0'.toNat

/-- The number that digits stand for: the last one counts units, each one before it counts ten
times as much as the one behind it. -/
def placeValue (digits : List Char) : Nat := Nat.ofDigits 10 (digits.reverse.map digitValue)

theorem placeValue_cons (c : Char) (cs : List Char) :
    placeValue (c :: cs) = digitValue c * 10 ^ cs.length + placeValue cs := by
  rw [placeValue, List.map_reverse, List.map_cons, Nat.ofDigits_reverse_cons, List.length_map,
    ← List.map_reverse, ← placeValue]
  ring

/-- Digits that are read behind a number shift it by as many places. -/
theorem ofDigitChars_eq (digits : List Char) (n : Nat) :
    Nat.ofDigitChars 10 digits n = n * 10 ^ digits.length + placeValue digits := by
  induction digits generalizing n with
  | nil => simp [placeValue]
  | cons c cs ih =>
    rw [Nat.ofDigitChars_cons, ih, placeValue_cons, List.length_cons, pow_succ, digitValue]
    ring

theorem le_ofDigitChars (digits : List Char) (n : Nat) : n ≤ Nat.ofDigitChars 10 digits n := by
  rw [ofDigitChars_eq]
  exact (Nat.le_mul_of_pos_right n (by positivity)).trans (Nat.le_add_right _ _)

theorem digitsValue?_eq_some_iff {digits : List Char} {n : Nat} :
    digitsValue? digits = some n ↔
      digits ≠ [] ∧ (∀ c ∈ digits, c.isDigit) ∧ placeValue digits = n := by
  rw [← List.all_eq_true, digitsValue?, ofDigitChars_eq, zero_mul, zero_add]
  split_ifs with h
  · simp [h]
  · simp only [false_iff]
    exact fun h' => h ⟨h'.1, h'.2.1⟩

/-! ## Blanks -/

/-- Only blanks are dropped at the ends. -/
theorem exists_append_trim (text : List Char) :
    ∃ before after, text = before ++ trim text ++ after ∧ (∀ c ∈ before, isBlank c) ∧
      ∀ c ∈ after, isBlank c := by
  have hsplit : ∀ cs : List Char, ∃ before, cs = before ++ cs.dropWhile isBlank ∧
      ∀ c ∈ before, isBlank c := fun cs =>
    ⟨cs.takeWhile isBlank, List.takeWhile_append_dropWhile.symm, fun c => List.mem_takeWhile_imp⟩
  obtain ⟨before, htext, hbefore⟩ := hsplit text
  obtain ⟨after, hrest, hafter⟩ := hsplit (text.dropWhile isBlank).reverse
  refine ⟨before, after.reverse, ?_, hbefore, by simpa using hafter⟩
  rw [trim, List.append_assoc, ← List.reverse_append, ← hrest, List.reverse_reverse]
  exact htext

/-- All blanks at the ends are dropped. -/
theorem trim_append {before core after : List Char} (hbefore : ∀ c ∈ before, isBlank c)
    (hcore : ∀ c ∈ core, isBlank c = false) (hafter : ∀ c ∈ after, isBlank c) :
    trim (before ++ core ++ after) = core := by
  cases core with
  | nil =>
    have hall : ∀ c ∈ before ++ after, isBlank c := by
      intro c hc
      exact (List.mem_append.1 hc).elim (hbefore c) (hafter c)
    rw [List.append_nil, trim, List.dropWhile_eq_nil_iff.2 hall, List.reverse_nil,
      List.dropWhile_nil, List.reverse_nil]
  | cons c cs =>
    have hfirst : isBlank c = false := hcore c (by simp)
    have hdrop : (before ++ (c :: cs) ++ after).dropWhile isBlank = c :: cs ++ after := by
      rw [List.append_assoc, List.dropWhile_append_of_pos hbefore]
      simp [hfirst]
    have hlast : ((c :: cs) ++ after).reverse.dropWhile isBlank =
        (c :: cs).reverse.dropWhile isBlank := by
      rw [List.reverse_append, List.dropWhile_append_of_pos (by simpa using hafter)]
    have hself : trim (c :: cs) = c :: cs := trim_eq_self hcore
    rw [trim, hdrop, hlast]
    rw [trim, List.dropWhile_cons_of_neg (by simp [hfirst])] at hself
    exact hself

/-! ## Numerals -/

/-- What stands behind a plus sign, or everything if there is none. -/
def unsigned : List Char → List Char
  | '+' :: digits => digits
  | digits => digits

theorem exists_sign_append_unsigned (cs : List Char) :
    ∃ sign, cs = sign ++ unsigned cs ∧ (sign = [] ∨ sign = ['+']) := by
  unfold unsigned
  split
  · exact ⟨['+'], rfl, .inr rfl⟩
  · exact ⟨[], rfl, .inl rfl⟩

theorem unsigned_append {sign digits : List Char} (hsign : sign = [] ∨ sign = ['+'])
    (hdigits : ∀ c ∈ digits, c.isDigit) : unsigned (sign ++ digits) = digits := by
  rcases hsign with rfl | rfl
  · -- The first of the digits is no plus sign.
    rw [List.nil_append]
    unfold unsigned
    split
    · simpa using hdigits '+' (by simp)
    · rfl
  · rfl

theorem natural?_eq (text : String) : natural? text = digitsValue? (unsigned (trim text.toList)) := by
  unfold natural? unsigned
  rcases trim text.toList with _ | ⟨c, cs⟩
  · rfl
  · by_cases hplus : c = '+'
    · subst hplus
      rfl
    · simp [hplus]

/-- The text spells the number `n`: between blanks it has at least one digit and maybe a plus sign
in front of the digits, and `n` is what the digits stand for. -/
def IsNumeral (text : String) (n : Nat) : Prop :=
  ∃ before sign digits after : List Char, text.toList = before ++ (sign ++ digits) ++ after ∧
    (∀ c ∈ before, isBlank c) ∧ (∀ c ∈ after, isBlank c) ∧ (sign = [] ∨ sign = ['+']) ∧
    digits ≠ [] ∧ (∀ c ∈ digits, c.isDigit) ∧ placeValue digits = n

/-- A text is read as the number that it spells. -/
theorem natural?_eq_some_iff {text : String} {n : Nat} :
    natural? text = some n ↔ IsNumeral text n := by
  rw [natural?_eq, digitsValue?_eq_some_iff]
  constructor
  · intro hvalue
    obtain ⟨before, after, htext, hbefore, hafter⟩ := exists_append_trim text.toList
    obtain ⟨sign, hcore, hsign⟩ := exists_sign_append_unsigned (trim text.toList)
    rw [hcore] at htext
    exact ⟨before, sign, _, after, htext, hbefore, hafter, hsign, hvalue⟩
  · rintro ⟨before, sign, digits, after, htext, hbefore, hafter, hsign, hvalue⟩
    have hdigit : ∀ c ∈ digits, isBlank c = false := fun c hc =>
      not_isBlank_of_isDigit (hvalue.2.1 c hc)
    have hcore : ∀ c ∈ sign ++ digits, isBlank c = false := by
      rcases hsign with rfl | rfl
      · exact hdigit
      · exact List.forall_mem_cons.2 ⟨rfl, hdigit⟩
    rw [htext, trim_append hbefore hcore hafter, unsigned_append hsign hvalue.2.1]
    exact hvalue

theorem le_maxUInt64_iff {n : Nat} : n ≤ maxUInt64 ↔ n < 2 ^ 64 := Nat.lt_succ_iff.symm

/-- What fits into 64 bits is read, and nothing else. -/
theorem uint64?_eq_some_iff {text : String} {n : Nat} :
    uint64? text = some n ↔ IsNumeral text n ∧ n < 2 ^ 64 := by
  rw [uint64?, Option.filter_eq_some_iff, natural?_eq_some_iff, decide_eq_true_eq,
    le_maxUInt64_iff]

/-! ## Reading digit by digit -/

/-- Put a digit behind a number in a word of 64 bits, unless the word overflows. -/
def appendDigit? (word : UInt64) (c : Char) : Option UInt64 :=
  if c.isDigit ∧ 10 * word.toNat + digitValue c < 2 ^ 64 then
    some (10 * word + UInt64.ofNat (digitValue c))
  else none

/-- Read digits into a word of 64 bits, one after the other. -/
def digitsWord64? (digits : List Char) : Option UInt64 :=
  if digits = [] then none else digits.foldlM appendDigit? 0

/-- Read an unsigned numeral into a word of 64 bits. -/
def word64? (text : String) : Option UInt64 :=
  digitsWord64? (unsigned (trim text.toList))

/-- A digit that is put behind a number does not wrap it around. -/
theorem toNat_of_appendDigit? {word word' : UInt64} {c : Char}
    (h : appendDigit? word c = some word') :
    word'.toNat = 10 * word.toNat + digitValue c := by
  unfold appendDigit? at h
  split_ifs at h with hfits
  obtain rfl := Option.some.inj h
  have hmod : (10 * word + UInt64.ofNat (digitValue c)).toNat =
      (10 * word.toNat + digitValue c) % 2 ^ 64 := by simp
  rw [hmod, Nat.mod_eq_of_lt hfits.2]

/-- Once a word would overflow, further digits only make the number larger. -/
theorem foldlM_appendDigit? (digits : List Char) (word : UInt64) :
    (digits.foldlM appendDigit? word).map UInt64.toNat =
      if digits.all Char.isDigit ∧ Nat.ofDigitChars 10 digits word.toNat < 2 ^ 64 then
        some (Nat.ofDigitChars 10 digits word.toNat)
      else none := by
  induction digits generalizing word with
  | nil => simp [word.toNat_lt]
  | cons c cs ih =>
    have hgrow := le_ofDigitChars cs (10 * word.toNat + digitValue c)
    rw [List.foldlM_cons, Nat.ofDigitChars_cons, ← digitValue, List.all_cons]
    cases hword : appendDigit? word c with
    | none =>
      unfold appendDigit? at hword
      split_ifs at hword with hfits
      rw [if_neg]
      · rfl
      · rintro ⟨hdigits, hlt⟩
        exact hfits ⟨(Bool.and_eq_true_iff.1 hdigits).1, by omega⟩
    | some word' =>
      have hdigit : c.isDigit := by
        unfold appendDigit? at hword
        split_ifs at hword with hfits
        exact hfits.1
      rw [Option.bind_eq_bind, Option.bind_some, ih, toNat_of_appendDigit? hword, hdigit,
        Bool.true_and]

/-- Reading digit by digit in 64 bits finds the same number. -/
theorem map_toNat_word64? (text : String) : (word64? text).map UInt64.toNat = uint64? text := by
  rw [word64?, uint64?, natural?_eq, digitsWord64?, digitsValue?]
  generalize unsigned (trim text.toList) = digits
  by_cases hnil : digits = []
  · simp [hnil]
  · rw [if_neg hnil, foldlM_appendDigit?, UInt64.toNat_zero]
    by_cases hall : digits.all Char.isDigit = true
    · simp only [hnil, hall, le_maxUInt64_iff, ne_eq, not_false_eq_true, true_and, if_true,
        Option.filter_some, decide_eq_true_eq]
    · simp [hall]

end AsnModel.Text
