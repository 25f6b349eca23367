import ContentPublishing.Nonce.Service

/-!
# What a reservation key names

The key of a position is the text of the chain nonce followed by the text of the
offset, since `+` on the codec concatenates. Two positions have one key if they are
the same, or if the first digit of the longer offset reads as the last digit of the
other chain nonce.
-/
namespace ContentPublishing.Nonce

/-- The last digit of `n` is the first of `j`: the texts of `n` and `i` and of `m` and
`j` are one text, cut at different places. -/
def Shifted (n i m j : ℕ) : Prop := 0 < m ∧ 10 ≤ j ∧ n = 10 * m + j / 10 ∧ i = j % 10

theorem toDigits_inj {n m : ℕ} (h : Nat.toDigits 10 n = Nat.toDigits 10 m) : n = m := by
  have hvalue := congrArg (fun digits => Nat.ofDigitChars 10 digits 0) h
  simpa using hvalue

/-- Texts that end in offsets of one and of two digits. -/
theorem toDigits_append_eq_iff {n i m j : ℕ} (hi : i < 10) (hj : 10 ≤ j) (hlt : j < 100) :
    Nat.toDigits 10 n ++ Nat.toDigits 10 i = Nat.toDigits 10 m ++ Nat.toDigits 10 j ↔
      Shifted n i m j := by
  have hten : j / 10 < 10 := by omega
  have hunit : j % 10 < 10 := by omega
  have hoffset : Nat.toDigits 10 j = Nat.toDigits 10 (j / 10) ++ Nat.toDigits 10 (j % 10) := by
    rw [Nat.toDigits_of_base_le (by decide) hj, Nat.toDigits_of_lt_base hunit]
  rw [hoffset, ← List.append_assoc]
  constructor
  · intro h
    obtain ⟨hnonce, hdigit⟩ := List.append_inj' h (by
      rw [Nat.toDigits_of_lt_base hi, Nat.toDigits_of_lt_base hunit]
      rfl)
    have hm : 0 < m := by
      rcases Nat.eq_zero_or_pos m with hzero | hpos
      · -- no numeral has a leading zero and a second digit
        rw [hzero, Nat.toDigits_zero, Nat.toDigits_of_lt_base hten] at hnonce
        have hvalue := congrArg (fun digits => Nat.ofDigitChars 10 digits 0) hnonce
        have hlength := congrArg List.length hnonce
        have hn : n < 10 := by
          simp [Nat.ofDigitChars_cons, Nat.toNat_digitChar_of_lt_ten hten] at hvalue
          omega
        rw [Nat.toDigits_of_lt_base hn] at hlength
        simp at hlength
      · exact hpos
    rw [Nat.toDigits_append_toDigits (by decide) hm hten] at hnonce
    exact ⟨hm, hj, toDigits_inj hnonce, toDigits_inj hdigit⟩
  · rintro ⟨hm, _, rfl, rfl⟩
    rw [Nat.toDigits_append_toDigits (by decide) hm hten]

/-- Texts that end in offsets of the same length. -/
theorem toDigits_append_inj {n i m j : ℕ}
    (hlength : (Nat.toDigits 10 i).length = (Nat.toDigits 10 j).length) :
    Nat.toDigits 10 n ++ Nat.toDigits 10 i = Nat.toDigits 10 m ++ Nat.toDigits 10 j ↔
      n = m ∧ i = j := by
  constructor
  · intro h
    obtain ⟨hnonce, hoffset⟩ := List.append_inj' h hlength
    exact ⟨toDigits_inj hnonce, toDigits_inj hoffset⟩
  · rintro ⟨rfl, rfl⟩
    rfl

theorem length_toDigits_of_lt {i : ℕ} (hi : i < 10) : (Nat.toDigits 10 i).length = 1 := by
  rw [Nat.toDigits_of_lt_base hi]
  rfl

theorem length_toDigits_of_le {i : ℕ} (hi : 10 ≤ i) (hlt : i < 100) :
    (Nat.toDigits 10 i).length = 2 := by
  have hten : i / 10 < 10 := by omega
  rw [Nat.toDigits_of_base_le (by decide) hi, Nat.toDigits_of_lt_base hten]
  rfl

theorem windowKey_eq_iff_toDigits {n i m j : ℕ} : windowKey n i = windowKey m j ↔
    Nat.toDigits 10 n ++ Nat.toDigits 10 i = Nat.toDigits 10 m ++ Nat.toDigits 10 j := by
  simp [windowKey, getNonceKey, String.ext_iff]

/-- Which positions have the same key. -/
theorem windowKey_eq_iff {n i m j : ℕ} (hi : i < numberOfNonceKeysToCheck)
    (hj : j < numberOfNonceKeysToCheck) :
    windowKey n i = windowKey m j ↔ (n = m ∧ i = j) ∨ Shifted n i m j ∨ Shifted m j n i := by
  unfold numberOfNonceKeysToCheck at hi hj
  have hi' : i < 100 := by omega
  have hj' : j < 100 := by omega
  rw [windowKey_eq_iff_toDigits]
  unfold Shifted
  rcases Nat.lt_or_ge i 10 with hishort | hilong
  · rcases Nat.lt_or_ge j 10 with hjshort | hjlong
    · rw [toDigits_append_inj (by
        rw [length_toDigits_of_lt hishort, length_toDigits_of_lt hjshort])]
      omega
    · rw [toDigits_append_eq_iff hishort hjlong hj']
      unfold Shifted
      omega
  · rcases Nat.lt_or_ge j 10 with hjshort | hjlong
    · rw [eq_comm, toDigits_append_eq_iff hjshort hilong hi']
      unfold Shifted
      omega
    · rw [toDigits_append_inj (by
        rw [length_toDigits_of_le hilong hi', length_toDigits_of_le hjlong hj'])]
      omega

/-! ## Keys and absolute nonces -/

/-- Keys of two windows are the same exactly where the nonces are. -/
def NamesAbsolute (n m : ℕ) : Prop :=
  ∀ i < numberOfNonceKeysToCheck, ∀ j < numberOfNonceKeysToCheck,
    (getNextPossibleKeys n)[i]? = (getNextPossibleKeys m)[j]? ↔ n + i = m + j

instance (n m : ℕ) : Decidable (NamesAbsolute n m) :=
  inferInstanceAs (Decidable (∀ _ < _, ∀ _ < _, _))

/-- The text of `n` is that of `m` and one digit that can begin an offset. -/
def Continues (n m : ℕ) : Prop := 0 < m ∧ n / 10 = m ∧ 1 ≤ n % 10 ∧ n % 10 ≤ 4

/-- The two windows have no nonce in common. -/
def FarApart (n m : ℕ) : Prop :=
  n + numberOfNonceKeysToCheck ≤ m ∨ m + numberOfNonceKeysToCheck ≤ n

theorem namesAbsolute_iff_shifted {n m : ℕ} : NamesAbsolute n m ↔
    ∀ i < numberOfNonceKeysToCheck, ∀ j < numberOfNonceKeysToCheck,
      ((n = m ∧ i = j) ∨ Shifted n i m j ∨ Shifted m j n i) ↔ n + i = m + j := by
  refine forall₂_congr fun i hi => forall₂_congr fun j hj => ?_
  rw [getElem?_getNextPossibleKeys n hi, getElem?_getNextPossibleKeys m hj, Option.some.injEq,
    windowKey_eq_iff hi hj]

theorem namesAbsolute_comm {n m : ℕ} : NamesAbsolute n m ↔ NamesAbsolute m n := by
  have h : ∀ {n m : ℕ}, NamesAbsolute n m → NamesAbsolute m n := by
    intro n m h i hi j hj
    rw [eq_comm, h j hj i hi, eq_comm]
  exact ⟨h, h⟩

/-- A chain nonce that is ahead of the other. -/
theorem namesAbsolute_of_lt {n m : ℕ} (hlt : m < n) :
    NamesAbsolute n m ↔ (n = 44 ∧ m = 4) ∨ (FarApart n m ∧ ¬ Continues n m) := by
  rw [namesAbsolute_iff_shifted]
  unfold Shifted FarApart Continues numberOfNonceKeysToCheck
  constructor
  · intro h
    by_cases hnear : n < m + 50
    · -- the first nonce of the later window, and for a short step the eleventh
      have hfirst := h 0 (by decide) (n - m) (by omega)
      by_cases hshort : n < m + 40
      · have heleventh := h 10 (by decide) (n - m + 10) (by omega)
        omega
      · omega
    · by_cases hcontinues : 0 < m ∧ n / 10 = m ∧ 1 ≤ n % 10 ∧ n % 10 ≤ 4
      · have hcut := h 0 (by decide) (n % 10 * 10) (by omega)
        omega
      · omega
  · intro h i hi j hj
    omega

/-- The keys of two windows name the absolute nonces only if it is the same window, or
if the windows are disjoint and neither chain nonce continues the other; 4 and 44
are an exception. -/
theorem namesAbsolute_iff (n m : ℕ) : NamesAbsolute n m ↔
    n = m ∨ (n = 44 ∧ m = 4) ∨ (n = 4 ∧ m = 44) ∨
      (FarApart n m ∧ ¬ Continues n m ∧ ¬ Continues m n) := by
  rcases Nat.lt_trichotomy n m with hlt | rfl | hlt
  · rw [namesAbsolute_comm, namesAbsolute_of_lt hlt]
    unfold FarApart Continues
    omega
  · rw [namesAbsolute_iff_shifted]
    unfold Shifted
    refine iff_of_true (fun i _ j _ => ?_) (.inl rfl)
    omega
  · rw [namesAbsolute_of_lt hlt]
    unfold FarApart Continues
    omega

/-- The nonce 6 is free again under another key once the chain has advanced from 5,
and the nonce 15 of 5 is blocked by the nonce 51 of 51. -/
theorem not_namesAbsolute_six : ¬ NamesAbsolute 5 6 ∧ ¬ NamesAbsolute 5 51 := by
  constructor
  · intro h
    exact absurd ((h 1 (by decide) 0 (by decide)).mpr rfl) (by decide +kernel)
  · intro h
    exact absurd ((h 10 (by decide) 0 (by decide)).mp (by decide +kernel)) (by decide)

end ContentPublishing.Nonce
