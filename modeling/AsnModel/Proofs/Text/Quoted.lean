import AsnModel.Text.Quoted

/-!
# What quoted text stands for

Quoted text determines the text, whichever characters are hidden, and it stays on one line. Where
the written form of a character ends shows from its beginning, so that nothing can be read in two
ways.

## Main definitions

* `shortEscapes` — the characters with an escape of their own, and the letters of these escapes.
-/

namespace AsnModel.Text

/-- What stands before a delimiter and behind it can be told apart if it is not used before. -/
theorem append_delimiter_inj {α : Type} {delimiter : α} {xs ys rest rest' : List α}
    (hxs : delimiter ∉ xs) (hys : delimiter ∉ ys)
    (h : xs ++ delimiter :: rest = ys ++ delimiter :: rest') : xs = ys ∧ rest = rest' := by
  induction xs generalizing ys with
  | nil =>
    cases ys with
    | nil => exact ⟨rfl, List.tail_eq_of_cons_eq h⟩
    | cons y ys => simp [List.head_eq_of_cons_eq h] at hys
  | cons x xs ih =>
    cases ys with
    | nil => simp [List.head_eq_of_cons_eq h] at hxs
    | cons y ys =>
      obtain ⟨rfl, htail⟩ := List.cons.inj h
      obtain ⟨rfl, hrest⟩ := ih (List.not_mem_of_not_mem_cons hxs)
        (List.not_mem_of_not_mem_cons hys) htail
      exact ⟨rfl, hrest⟩

/-! ## Code points -/

theorem exists_digitChar_of_mem_toDigits {n : Nat} {c : Char} (h : c ∈ Nat.toDigits 16 n) :
    ∃ d < 16, c = d.digitChar := by
  induction n using Nat.strongRecOn with
  | ind n ih =>
    rcases Nat.lt_or_ge n 16 with hn | hn
    · rw [Nat.toDigits_of_lt_base hn, List.mem_singleton] at h
      exact ⟨n, hn, h⟩
    · rw [Nat.toDigits_of_base_le (by omega) hn, List.mem_append, List.mem_singleton] at h
      rcases h with h | rfl
      · exact ih (n / 16) (by omega) h
      · exact ⟨n % 16, Nat.mod_lt n (by omega), rfl⟩

theorem isAlphanum_of_mem_toDigits {n : Nat} {c : Char} (h : c ∈ Nat.toDigits 16 n) :
    c.isAlphanum := by
  have hdigits : ∀ d < 16, (Nat.digitChar d).isAlphanum := by decide
  obtain ⟨d, hd, rfl⟩ := exists_digitChar_of_mem_toDigits h
  exact hdigits d hd

theorem toDigits_injective {m n : Nat} (h : Nat.toDigits 16 m = Nat.toDigits 16 n) : m = n := by
  have hdigits : ∀ d < 16, ∀ e < 16, Nat.digitChar d = Nat.digitChar e → d = e := by decide
  induction m using Nat.strongRecOn generalizing n with
  | ind m ih =>
    rcases Nat.lt_or_ge m 16 with hm | hm <;> rcases Nat.lt_or_ge n 16 with hn | hn
    · rw [Nat.toDigits_of_lt_base hm, Nat.toDigits_of_lt_base hn] at h
      exact hdigits m hm n hn (List.head_eq_of_cons_eq h)
    · rw [Nat.toDigits_of_lt_base hm, Nat.toDigits_of_base_le (by omega) hn] at h
      have hlength := congrArg List.length h
      have hpos : 0 < (Nat.toDigits 16 (n / 16)).length := Nat.length_toDigits_pos
      simp only [List.length_singleton, List.length_append] at hlength
      omega
    · rw [Nat.toDigits_of_base_le (by omega) hm, Nat.toDigits_of_lt_base hn] at h
      have hlength := congrArg List.length h
      have hpos : 0 < (Nat.toDigits 16 (m / 16)).length := Nat.length_toDigits_pos
      simp only [List.length_singleton, List.length_append] at hlength
      omega
    · rw [Nat.toDigits_of_base_le (by omega) hm, Nat.toDigits_of_base_le (by omega) hn] at h
      obtain ⟨hdiv, hmod⟩ := List.append_inj' h rfl
      have hdiv := ih (m / 16) (by omega) hdiv
      have hmod := hdigits _ (Nat.mod_lt m (by omega)) _ (Nat.mod_lt n (by omega))
        (List.head_eq_of_cons_eq hmod)
      omega

/-! ## Single characters -/

/-- The characters with an escape of their own, each with the letter behind the backslash. -/
def shortEscapes : List (Char × Char) :=
  [('"', '"'), ('\\', '\\'), ('\x00', '0'), ('\t', 't'), ('\n', 'n'), ('\r', 'r')]

variable {hidden : Char → Bool} {c c' : Char}

/-- The three forms in which a character is written. -/
theorem escape_cases (hidden : Char → Bool) (c : Char) :
    (∃ letter, (c, letter) ∈ shortEscapes ∧ escape hidden c = ['\\', letter]) ∨
      escape hidden c = codePointEscape c ∨
      escape hidden c = [c] ∧ c ≠ '\\' ∧ c ≠ '"' ∧ c ≠ '\n' := by
  unfold escape
  split
  case h_7 hquote hbackslash _ _ hfeed _ =>
    by_cases h : hidden c = true
    · exact .inr (.inl (if_pos h))
    · exact .inr (.inr ⟨if_neg h, hbackslash, hquote, hfeed⟩)
  all_goals exact .inl ⟨_, by decide, rfl⟩

theorem escape_ne_nil : escape hidden c ≠ [] := by
  rcases escape_cases hidden c with ⟨letter, -, h⟩ | h | ⟨h, -⟩ <;> simp [h, codePointEscape]

theorem not_mem_escape : '\n' ∉ escape hidden c := by
  have hletters : ∀ e ∈ shortEscapes, e.2 ≠ '\n' := by decide
  rcases escape_cases hidden c with ⟨letter, hmem, h⟩ | h | ⟨h, -, -, hfeed⟩
  · simp [h, (hletters _ hmem).symm]
  · have hdigits : '\n' ∉ Nat.toDigits 16 c.toNat := fun hmem => by
      simpa using isAlphanum_of_mem_toDigits hmem
    simp [h, codePointEscape, hdigits]
  · simp [h, hfeed.symm]

/-- A code point ends at the brace. -/
theorem codePointEscape_append_inj {rest rest' : List Char}
    (h : codePointEscape c ++ rest = codePointEscape c' ++ rest') : c = c' ∧ rest = rest' := by
  have hbrace : ∀ n, '\x7d' ∉ Nat.toDigits 16 n := fun n hmem => by
    simpa using isAlphanum_of_mem_toDigits hmem
  simp only [codePointEscape, List.append_assoc, List.cons_append, List.nil_append, List.cons.injEq,
    true_and] at h
  obtain ⟨hdigits, hrest⟩ := append_delimiter_inj (hbrace _) (hbrace _) h
  exact ⟨Char.ext (UInt32.toNat_inj.1 (toDigits_injective hdigits)), hrest⟩

/-- The written form of a character determines the character and where it ends. -/
theorem escape_append_inj {rest rest' : List Char}
    (h : escape hidden c ++ rest = escape hidden c' ++ rest') : c = c' ∧ rest = rest' := by
  have hunique : ∀ e ∈ shortEscapes, ∀ e' ∈ shortEscapes, e.2 = e'.2 → e.1 = e'.1 := by decide
  have hletter : ∀ e ∈ shortEscapes, e.2 ≠ 'u' := by decide
  rcases escape_cases hidden c with ⟨letter, hmem, hc⟩ | hc | ⟨hc, hplain, -⟩ <;>
    rcases escape_cases hidden c' with ⟨letter', hmem', hc'⟩ | hc' | ⟨hc', hplain', -⟩ <;>
    rw [hc, hc'] at h
  · obtain ⟨rfl, rfl⟩ : letter = letter' ∧ rest = rest' := by simpa using h
    exact ⟨hunique _ hmem _ hmem' rfl, rfl⟩
  · have hu : letter = 'u' := by simp [codePointEscape] at h; exact h.1
    exact absurd hu (hletter _ hmem)
  · exact absurd (List.head_eq_of_cons_eq h).symm hplain'
  · have hu : letter' = 'u' := by simp [codePointEscape] at h; exact h.1.symm
    exact absurd hu (hletter _ hmem')
  · exact codePointEscape_append_inj h
  · exact absurd (List.head_eq_of_cons_eq h).symm hplain'
  · exact absurd (List.head_eq_of_cons_eq h) hplain
  · exact absurd (List.head_eq_of_cons_eq h) hplain
  · simpa using h

/-! ## Whole texts -/

theorem flatMap_escape_injective {text text' : List Char}
    (h : text.flatMap (escape hidden) = text'.flatMap (escape hidden)) : text = text' := by
  induction text generalizing text' with
  | nil =>
    cases text' with
    | nil => rfl
    | cons c text' => simp [escape_ne_nil] at h
  | cons c text ih =>
    cases text' with
    | nil => simp [escape_ne_nil] at h
    | cons c' text' =>
      obtain ⟨rfl, hrest⟩ := escape_append_inj (by simpa using h)
      rw [ih hrest]

theorem toList_quote (text : String) :
    (quote hidden text).toList = '"' :: (text.toList.flatMap (escape hidden) ++ ['"']) := by
  simp [quote]

/-- Quoted text determines the text. -/
theorem quote_injective {text text' : String} (h : quote hidden text = quote hidden text') :
    text = text' := by
  have hlist := congrArg String.toList h
  rw [toList_quote, toList_quote, List.cons.injEq, List.append_cancel_right_eq] at hlist
  exact String.toList_inj.1 (flatMap_escape_injective hlist.2)

/-- Quoted text stays on one line. -/
theorem not_mem_quote (text : String) : '\n' ∉ (quote hidden text).toList := by
  simp [toList_quote, not_mem_escape]

end AsnModel.Text
