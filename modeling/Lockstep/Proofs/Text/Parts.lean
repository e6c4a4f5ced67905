import Lockstep.Text.Blank
import Lockstep.Text.Numeral
import Mathlib.Data.List.Induction
import Mathlib.Data.List.TakeWhile

/-!
# Parts of texts

Where a text is divided, what is left of it without the blanks around, and the texts of a
machine word. A division at the first separator shows in the part before it, and one at the last
in the part after it: that part holds no separator.
-/

namespace Lockstep

/-! ## Divided texts -/

section Division

variable {sep : Char} {cs a b : List Char}

theorem splitFirst?_append (h : sep ∉ a) : splitFirst? sep (a ++ sep :: b) = some (a, b) := by
  induction a with
  | nil => simp [splitFirst?]
  | cons c a ih =>
    have hc : c ≠ sep := fun hc => h (by simp [hc])
    have ha : sep ∉ a := fun ha => h (List.mem_cons_of_mem c ha)
    simp [splitFirst?, hc, ih ha]

theorem of_splitFirst? (h : splitFirst? sep cs = some (a, b)) : cs = a ++ sep :: b ∧ sep ∉ a := by
  induction cs generalizing a with
  | nil => simp [splitFirst?] at h
  | cons c r ih =>
    by_cases hc : c = sep
    · simp only [splitFirst?, if_pos hc, Option.some.injEq, Prod.mk.injEq] at h
      obtain ⟨rfl, rfl⟩ := h
      simp [hc]
    · simp only [splitFirst?, if_neg hc, Option.map_eq_some_iff] at h
      obtain ⟨⟨a, b⟩, hr, h⟩ := h
      cases h
      obtain ⟨rfl, ha⟩ := ih hr
      simp [Ne.symm hc, ha]

theorem splitLast?_eq_none : splitLast? sep cs = none ↔ sep ∉ cs := by
  induction cs with
  | nil => simp [splitLast?]
  | cons c r ih =>
    cases hr : splitLast? sep r with
    | none =>
      have hmem : sep ∉ r := ih.mp hr
      simp [splitLast?, hr, hmem, eq_comm]
    | some p =>
      have hmem : sep ∈ r := by simpa [hr] using ih
      simp [splitLast?, hr, hmem]

theorem splitLast?_append (h : sep ∉ b) : splitLast? sep (a ++ sep :: b) = some (a, b) := by
  induction a with
  | nil => simp [splitLast?, splitLast?_eq_none.mpr h]
  | cons c a ih => simp [splitLast?, ih]

theorem of_splitLast? (h : splitLast? sep cs = some (a, b)) : cs = a ++ sep :: b ∧ sep ∉ b := by
  induction cs generalizing a with
  | nil => simp [splitLast?] at h
  | cons c r ih =>
    cases hr : splitLast? sep r with
    | none =>
      simp only [splitLast?, hr, Option.ite_none_right_eq_some, Option.some.injEq,
        Prod.mk.injEq] at h
      obtain ⟨rfl, rfl, rfl⟩ := h
      exact ⟨rfl, splitLast?_eq_none.mp hr⟩
    | some p =>
      simp only [splitLast?, hr, Option.some.injEq, Prod.mk.injEq] at h
      obtain ⟨rfl, rfl⟩ := h
      obtain ⟨hcs, hb⟩ := ih hr
      exact ⟨by rw [hcs, List.cons_append], hb⟩

end Division

/-! ## Blanks around a text -/

section Blanks

variable {cs front back : List Char}

theorem dropWhile_blanks (hfront : ∀ c ∈ front, isBlank c = true)
    (hcs : ∀ c ∈ cs, isBlank c = false) : (front ++ cs).dropWhile isBlank = cs := by
  rw [List.dropWhile_append_of_pos hfront]
  cases cs with
  | nil => rfl
  | cons c cs => simp [hcs]

theorem trimBlanks_around (hfront : ∀ c ∈ front, isBlank c = true)
    (hback : ∀ c ∈ back, isBlank c = true) (hcs : ∀ c ∈ cs, isBlank c = false) :
    trimBlanks (front ++ cs ++ back) = cs := by
  cases cs with
  | nil =>
    have hall : ∀ c ∈ front ++ [] ++ back, isBlank c = true := by
      simpa [or_imp, forall_and] using ⟨hfront, hback⟩
    rw [trimBlanks, List.dropWhile_eq_nil_iff.mpr hall]
    rfl
  | cons c cs =>
    have hc : isBlank c = false := hcs c List.mem_cons_self
    have hlead : (front ++ (c :: cs) ++ back).dropWhile isBlank = c :: cs ++ back := by
      rw [List.append_assoc, List.dropWhile_append_of_pos hfront]
      simp [hc]
    have htail : (c :: cs ++ back).reverse.dropWhile isBlank = (c :: cs).reverse := by
      rw [List.reverse_append]
      apply dropWhile_blanks
      · simpa using hback
      · intro c' hc'
        exact hcs c' (List.mem_reverse.mp hc')
    rw [trimBlanks, hlead, htail, List.reverse_reverse]

theorem exists_blanks_around (cs : List Char) :
    ∃ front back, cs = front ++ trimBlanks cs ++ back ∧
      (∀ c ∈ front, isBlank c = true) ∧ ∀ c ∈ back, isBlank c = true := by
  let inner := cs.dropWhile isBlank
  refine ⟨cs.takeWhile isBlank, (inner.reverse.takeWhile isBlank).reverse, ?_, ?_, ?_⟩
  · have hinner : trimBlanks cs ++ (inner.reverse.takeWhile isBlank).reverse = inner := by
      rw [trimBlanks, ← List.reverse_append, List.takeWhile_append_dropWhile,
        List.reverse_reverse]
    rw [List.append_assoc, hinner, List.takeWhile_append_dropWhile]
  · intro c hc
    exact List.mem_takeWhile_imp hc
  · intro c hc
    exact List.mem_takeWhile_imp (List.mem_reverse.mp hc)

theorem toNat_of_isDigit {c : Char} (h : c.isDigit = true) : 48 ≤ c.toNat ∧ c.toNat ≤ 57 :=
  Char.isDigit_iff_toNat.mp h

theorem toNat_of_isLower {c : Char} (h : c.isLower = true) : 97 ≤ c.toNat ∧ c.toNat ≤ 122 := by
  have hrange : (decide ('a'.val ≤ c.val) && decide (c.val ≤ 'z'.val)) = true := h
  rw [Bool.and_eq_true, decide_eq_true_eq, decide_eq_true_eq] at hrange
  exact hrange

/-- Printed characters of ASCII are no blanks. -/
theorem isBlank_of_range {c : Char} (h : 33 ≤ c.toNat ∧ c.toNat ≤ 126) : isBlank c = false := by
  simp [isBlank, blankRanges]
  omega

end Blanks

/-! ## Texts of a machine word -/

section Words

variable {cs ds : List Char} {n : Nat} {c : Char}

/-- The digits of a number after any zeros. -/
def paddedDigits (zeros n : Nat) : List Char :=
  List.replicate zeros '0' ++ Nat.toDigits 10 n

/-- The texts of a machine word: its digits, after any zeros and at most one plus sign. -/
inductive SpellsWord : List Char → Nat → Prop where
  | digits (zeros : Nat) {n : Nat} (h : n < wordLimit) : SpellsWord (paddedDigits zeros n) n
  | plus (zeros : Nat) {n : Nat} (h : n < wordLimit) : SpellsWord ('+' :: paddedDigits zeros n) n

theorem isDigit_of_mem_paddedDigits {zeros : Nat} (h : c ∈ paddedDigits zeros n) :
    c.isDigit = true := by
  rcases List.mem_append.mp h with hzero | hdigit
  · rw [List.eq_of_mem_replicate hzero]
    rfl
  · exact Nat.isDigit_of_mem_toDigits (by decide) (by decide) hdigit

theorem isNumeral_iff : isNumeral ds = true ↔ ds ≠ [] ∧ ∀ c ∈ ds, c.isDigit = true := by
  simp [isNumeral]

theorem isNumeral_paddedDigits (zeros n : Nat) : isNumeral (paddedDigits zeros n) = true := by
  have hne : paddedDigits zeros n ≠ [] := by simp [paddedDigits, Nat.toDigits_ne_nil]
  exact isNumeral_iff.mpr ⟨hne, fun c => isDigit_of_mem_paddedDigits⟩

theorem ofDigitChars_paddedDigits (zeros n : Nat) :
    Nat.ofDigitChars 10 (paddedDigits zeros n) 0 = n := by
  simp [paddedDigits, Nat.ofDigitChars_append]

theorem exists_digitChar (h : c.isDigit = true) : ∃ d < 10, c = d.digitChar := by
  have hrange := toNat_of_isDigit h
  refine ⟨c.toNat - 48, by omega, ?_⟩
  apply Char.toNat_inj.mp
  rw [Nat.toNat_digitChar_of_lt_ten (by omega)]
  omega

/-- Digits are those of their number after zeros. -/
theorem exists_paddedDigits (hne : ds ≠ []) (h : ∀ c ∈ ds, c.isDigit = true) :
    ∃ zeros, ds = paddedDigits zeros (Nat.ofDigitChars 10 ds 0) := by
  induction ds using List.reverseRecOn with
  | nil => exact absurd rfl hne
  | append_singleton ds c ih =>
    obtain ⟨d, hd, rfl⟩ := exists_digitChar (h c (by simp))
    have hvalue : Nat.ofDigitChars 10 (ds ++ [d.digitChar]) 0 =
        10 * Nat.ofDigitChars 10 ds 0 + d := by
      rw [Nat.ofDigitChars_append, Nat.ofDigitChars_cons_digitChar_of_lt_ten hd,
        Nat.ofDigitChars_nil]
    by_cases hds : ds = []
    · subst hds
      refine ⟨0, ?_⟩
      rw [hvalue, Nat.ofDigitChars_nil, Nat.mul_zero, Nat.zero_add, paddedDigits,
        Nat.toDigits_of_lt_base hd]
      rfl
    · obtain ⟨zeros, hzeros⟩ := ih hds fun c hc => h c (by simp [hc])
      rw [hvalue]
      generalize Nat.ofDigitChars 10 ds 0 = v at hzeros
      rcases Nat.eq_zero_or_pos v with rfl | hv
      · -- the digits so far are zeros, and the last of them is no longer the number's own
        refine ⟨zeros + 1, ?_⟩
        rw [hzeros]
        simp [paddedDigits, Nat.toDigits_of_lt_base hd, List.replicate_succ']
      · refine ⟨zeros, ?_⟩
        rw [hzeros, paddedDigits, paddedDigits, List.append_assoc,
          ← Nat.toDigits_append_toDigits (by decide) hv hd, Nat.toDigits_of_lt_base hd]

theorem isNumeral_and_eq_some :
    (if isNumeral ds && decide (Nat.ofDigitChars 10 ds 0 < wordLimit) then
      some (Nat.ofDigitChars 10 ds 0) else none) = some n ↔
      n < wordLimit ∧ ∃ zeros, ds = paddedDigits zeros n := by
  rw [Option.ite_none_right_eq_some, Bool.and_eq_true, decide_eq_true_eq, Option.some.injEq]
  constructor
  · rintro ⟨⟨hnumeral, hlt⟩, rfl⟩
    obtain ⟨hne, hdigits⟩ := isNumeral_iff.mp hnumeral
    exact ⟨hlt, exists_paddedDigits hne hdigits⟩
  · rintro ⟨hlt, zeros, rfl⟩
    rw [ofDigitChars_paddedDigits]
    exact ⟨⟨isNumeral_paddedDigits zeros n, hlt⟩, rfl⟩

theorem plus_cons_ne_paddedDigits (cs : List Char) (zeros n : Nat) :
    '+' :: cs ≠ paddedDigits zeros n := by
  intro h
  have hdigit : '+'.isDigit = true := by
    apply isDigit_of_mem_paddedDigits
    rw [← h]
    exact List.mem_cons_self
  exact absurd hdigit (by decide)

theorem readWord?_eq_some : readWord? cs = some n ↔ SpellsWord cs n := by
  constructor
  · intro h
    unfold readWord? at h
    split at h
    · obtain ⟨hlt, zeros, rfl⟩ := isNumeral_and_eq_some.mp h
      exact .plus zeros hlt
    · obtain ⟨hlt, zeros, rfl⟩ := isNumeral_and_eq_some.mp h
      exact .digits zeros hlt
  · intro h
    unfold readWord?
    cases h with
    | plus zeros hlt => exact isNumeral_and_eq_some.mpr ⟨hlt, zeros, rfl⟩
    | digits zeros hlt =>
      split
      next cs hcs => exact absurd hcs.symm (plus_cons_ne_paddedDigits cs zeros n)
      next => exact isNumeral_and_eq_some.mpr ⟨hlt, zeros, rfl⟩

theorem SpellsWord.lt (h : SpellsWord cs n) : n < wordLimit := by
  cases h with
  | digits zeros hlt => exact hlt
  | plus zeros hlt => exact hlt

theorem SpellsWord.isDigit_or_plus (h : SpellsWord cs n) (hc : c ∈ cs) :
    c.isDigit = true ∨ c = '+' := by
  cases h with
  | digits zeros hlt => exact .inl (isDigit_of_mem_paddedDigits hc)
  | plus zeros hlt =>
    rcases List.mem_cons.mp hc with rfl | hc
    · exact .inr rfl
    · exact .inl (isDigit_of_mem_paddedDigits hc)

theorem SpellsWord.isBlank (h : SpellsWord cs n) : ∀ c ∈ cs, isBlank c = false := by
  intro c hc
  rcases h.isDigit_or_plus hc with hc | rfl
  · have hrange := toNat_of_isDigit hc
    exact isBlank_of_range (by omega)
  · rfl

theorem SpellsWord.not_mem (h : SpellsWord cs n) (hdigit : c.isDigit = false) (hplus : c ≠ '+') :
    c ∉ cs := by
  intro hc
  rcases h.isDigit_or_plus hc with hc | hc
  · rw [hdigit] at hc
    cases hc
  · exact hplus hc

theorem spellsWord_toDigits (h : n < wordLimit) : SpellsWord (Nat.toDigits 10 n) n :=
  .digits 0 h

end Words

end Lockstep
