import AsnModel.Text.Numeral

/-!
# Reading back numerals

The numeral of an integer is read as this integer.
-/

namespace AsnModel.Text

theorem not_isBlank_of_isDigit {c : Char} (h : c.isDigit) : isBlank c = false := by
  simp only [Char.isDigit, Bool.and_eq_true, decide_eq_true_eq] at h
  obtain ⟨h₁, h₂⟩ := h
  have : 48 ≤ c.toNat := h₁
  have : c.toNat ≤ 57 := h₂
  simp only [isBlank, Bool.or_eq_false_iff, Bool.and_eq_false_iff, decide_eq_false_iff_not]
  omega

theorem trim_eq_self {text : List Char} (h : ∀ c ∈ text, isBlank c = false) : trim text = text := by
  have hdrop : ∀ cs : List Char, (∀ c ∈ cs, isBlank c = false) → cs.dropWhile isBlank = cs := by
    intro cs hcs
    cases cs with
    | nil => rfl
    | cons c cs => simp [hcs c (by simp)]
  rw [trim, hdrop _ h, hdrop _ (by simpa using h), List.reverse_reverse]

theorem digitsValue?_toDigits (n : Nat) : digitsValue? (Nat.toDigits 10 n) = some n := by
  have hall : (Nat.toDigits 10 n).all Char.isDigit = true := by
    rw [List.all_eq_true]
    intro c hc
    exact Nat.isDigit_of_mem_toDigits (by omega) (by omega) hc
  rw [digitsValue?, if_pos ⟨Nat.toDigits_ne_nil, hall⟩, Nat.ofDigitChars_ten_toDigits]

@[simp] theorem integer?_repr (n : Int) : integer? n.repr = some n := by
  have hdigit : ∀ m : Nat, ∀ c ∈ Nat.toDigits 10 m, c.isDigit = true := fun m c hc =>
    Nat.isDigit_of_mem_toDigits (by omega) (by omega) hc
  cases n with
  | ofNat m =>
    have htrim : trim (Int.ofNat m).repr.toList = Nat.toDigits 10 m := by
      rw [Int.repr, Nat.toList_repr]
      exact trim_eq_self fun c hc => not_isBlank_of_isDigit (hdigit m c hc)
    rw [integer?, htrim]
    split
    · rename_i heq
      have := hdigit m '-' (by simp [heq])
      contradiction
    · rename_i heq
      have := hdigit m '+' (by simp [heq])
      contradiction
    · simp [digitsValue?_toDigits]
  | negSucc m =>
    have htrim : trim (Int.negSucc m).repr.toList = '-' :: Nat.toDigits 10 (m + 1) := by
      have hlist : (Int.negSucc m).repr.toList = '-' :: Nat.toDigits 10 (m + 1) := by
        simp [Int.repr]
      rw [hlist]
      refine trim_eq_self fun c hc => ?_
      rcases List.mem_cons.1 hc with rfl | hc
      · rfl
      · exact not_isBlank_of_isDigit (hdigit _ c hc)
    rw [integer?, htrim]
    simp [digitsValue?_toDigits, Int.negSucc_eq]

theorem minInt64_le_of_int64? {text : String} {n : Int} (h : int64? text = some n) :
    minInt64 ≤ n := by
  have hbounds := (Option.filter_eq_some_iff.1 h).2
  simp_all

theorem le_maxInt64_of_int64? {text : String} {n : Int} (h : int64? text = some n) :
    n ≤ maxInt64 := by
  have hbounds := (Option.filter_eq_some_iff.1 h).2
  simp_all

theorem int64?_repr {n : Int} (hmin : minInt64 ≤ n) (hmax : n ≤ maxInt64) :
    int64? n.repr = some n := by
  simp [int64?, hmin, hmax]

end AsnModel.Text
