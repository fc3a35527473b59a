import Mathlib.Data.Nat.Bitwise
import Mathlib.Data.Set.Basic

namespace PathForge.Leading

section Numbers

variable {w n l s a b c : ℕ}

def SameLead (w n a b : ℕ) : Prop := ∀ i < n, a.testBit (w - 1 - i) = b.testBit (w - 1 - i)

instance : Decidable (SameLead w n a b) :=
  inferInstanceAs (Decidable (∀ i < n, a.testBit (w - 1 - i) = b.testBit (w - 1 - i)))

theorem SameLead.symm (h : SameLead w n a b) : SameLead w n b a := fun i hi => (h i hi).symm

theorem SameLead.trans (h : SameLead w n a b) (h' : SameLead w n b c) : SameLead w n a c :=
  fun i hi => (h i hi).trans (h' i hi)

theorem SameLead.mono (hn : n ≤ l) (h : SameLead w l a b) : SameLead w n a b :=
  fun i hi => h i (hi.trans_le hn)

theorem testBit_of_le (ha : a < 2 ^ w) {i : ℕ} (hi : w ≤ i) : a.testBit i = false :=
  Nat.testBit_lt_two_pow (ha.trans_le (Nat.pow_le_pow_right (by decide) hi))

theorem sameLead_sub_iff (hs : s ≤ w) :
    SameLead w (w - s) a b ↔ ∀ i, s ≤ i → i < w → a.testBit i = b.testBit i := by
  constructor
  · intro h i hsi hi
    have hbit := h (w - 1 - i) (by omega)
    rwa [show w - 1 - (w - 1 - i) = i by omega] at hbit
  · intro h i hi
    exact h _ (by omega) (by omega)

theorem eq_iff_of_cleared {x y : ℕ} (hs : s ≤ w) (hx : ∀ i, x.testBit i = (decide (s ≤ i ∧ i < w) && a.testBit i))
    (hy : ∀ i, y.testBit i = (decide (s ≤ i ∧ i < w) && b.testBit i)) : x = y ↔ SameLead w (w - s) a b := by
  rw [sameLead_sub_iff hs]
  constructor
  · rintro rfl i hsi hi
    have hbit := (hx i).symm.trans (hy i)
    simpa [hsi, hi] using hbit
  · intro h
    apply Nat.eq_of_testBit_eq
    intro i
    rw [hx, hy]
    by_cases hi : s ≤ i ∧ i < w
    · rw [h i hi.1 hi.2]
    · simp [hi]

theorem shiftRight_eq_iff_sameLead (hs : s ≤ w) (ha : a < 2 ^ w) (hb : b < 2 ^ w) :
    a >>> s = b >>> s ↔ SameLead w (w - s) a b := by
  rw [sameLead_sub_iff hs]
  constructor
  · intro h i hsi _
    have hbit := congrArg (fun x => x.testBit (i - s)) h
    simp only [Nat.testBit_shiftRight] at hbit
    rwa [show s + (i - s) = i by omega] at hbit
  · intro h
    apply Nat.eq_of_testBit_eq
    intro i
    rw [Nat.testBit_shiftRight, Nat.testBit_shiftRight]
    by_cases hi : s + i < w
    · exact h _ (by omega) hi
    · rw [testBit_of_le ha (by omega), testBit_of_le hb (by omega)]

def Canonical (w n a : ℕ) : Prop := ∀ i, n ≤ i → i < w → a.testBit (w - 1 - i) = false

instance : Decidable (Canonical w n a) :=
  decidable_of_iff (∀ i < w, n ≤ i → a.testBit (w - 1 - i) = false) ⟨fun h i hn hi => h i hi hn,
    fun h i hi hn => h i hn hi⟩

theorem SameLead.eq_of_canonical (ha : a < 2 ^ w) (hb : b < 2 ^ w) (hca : Canonical w n a) (hcb : Canonical w n b)
    (h : SameLead w n a b) : a = b := by
  apply Nat.eq_of_testBit_eq
  intro j
  by_cases hj : j < w
  · obtain ⟨i, hi, rfl⟩ : ∃ i < w, w - 1 - i = j := ⟨w - 1 - j, by omega, by omega⟩
    by_cases hin : i < n
    · exact h i hin
    · rw [hca i (by omega) hi, hcb i (by omega) hi]
  · rw [testBit_of_le ha (by omega), testBit_of_le hb (by omega)]

def block (w n b : ℕ) : Set ℕ := {x | x < 2 ^ w ∧ SameLead w n x b}

theorem block_subset_iff (hn : n ≤ w) (ha : a < 2 ^ w) :
    block w l a ⊆ block w n b ↔ n ≤ l ∧ SameLead w n a b := by
  constructor
  · intro h
    have hself : a ∈ block w l a := ⟨ha, fun _ _ => rfl⟩
    refine ⟨?_, (h hself).2⟩
    by_contra hl
    -- the number that differs from `a` in the first bit behind the `l` ones alone
    have hflip : a ^^^ 2 ^ (w - 1 - l) ∈ block w l a := by
      refine ⟨Nat.xor_lt_two_pow ha (Nat.pow_lt_pow_right (by decide) (by omega)), ?_⟩
      intro i hi
      rw [Nat.testBit_xor, Nat.testBit_two_pow_of_ne (by omega), Bool.xor_false]
    have hbit := (h hflip).2 l (by omega)
    rw [← (h hself).2 l (by omega), Nat.testBit_xor, Nat.testBit_two_pow_self] at hbit
    simp at hbit
  · rintro ⟨hl, hs⟩ x ⟨hx, hxa⟩
    exact ⟨hx, (hxa.mono hl).trans hs⟩

end Numbers

section Words

def checkedSub (n s : UInt32) : Option UInt32 := if s ≤ n then some (n - s) else none

def checkedShl (n s : UInt32) : Option UInt32 := if s < 32 then some (n <<< s) else none

def checkedShr (n s : UInt32) : Option UInt32 := if s < 32 then some (n >>> s) else none

variable {a b : UInt32} {s : UInt32}

theorem shiftRight_eq_iff (hs : s.toNat < 32) :
    a >>> s = b >>> s ↔ SameLead 32 (32 - s.toNat) a.toNat b.toNat := by
  rw [← shiftRight_eq_iff_sameLead hs.le a.toNat_lt b.toNat_lt, ← UInt32.toNat_inj, UInt32.toNat_shiftRight,
    UInt32.toNat_shiftRight, Nat.mod_eq_of_lt hs]

theorem testBit_shiftOut (hs : s.toNat < 32) (i : ℕ) :
    (a >>> s <<< s).toNat.testBit i = (decide (s.toNat ≤ i ∧ i < 32) && a.toNat.testBit i) := by
  rw [UInt32.toNat_shiftLeft, UInt32.toNat_shiftRight, Nat.mod_eq_of_lt hs, Nat.testBit_mod_two_pow,
    Nat.testBit_shiftLeft, Nat.testBit_shiftRight]
  by_cases hi : s.toNat ≤ i
  · simp [hi]
  · simp [hi]

theorem shiftOut_eq_iff (hs : s.toNat < 32) :
    a >>> s <<< s = b >>> s <<< s ↔ SameLead 32 (32 - s.toNat) a.toNat b.toNat := by
  rw [← UInt32.toNat_inj, eq_iff_of_cleared hs.le (testBit_shiftOut hs) (testBit_shiftOut hs)]

theorem testBit_masked (hs : s.toNat < 32) (i : ℕ) :
    (a &&& ~~~((1 <<< s) - 1)).toNat.testBit i = (decide (s.toNat ≤ i ∧ i < 32) && a.toNat.testBit i) := by
  have hp : 2 ^ s.toNat < 2 ^ 32 := Nat.pow_lt_pow_right (by decide) hs
  have hshift : (1 <<< s : UInt32).toNat = 2 ^ s.toNat := by
    rw [UInt32.toNat_shiftLeft, Nat.mod_eq_of_lt hs, UInt32.toNat_one, Nat.one_shiftLeft, Nat.mod_eq_of_lt hp]
  have hmask : ((1 <<< s) - 1 : UInt32).toNat = 2 ^ s.toNat - 1 := by
    rw [UInt32.toNat_sub_of_le, hshift, UInt32.toNat_one]
    rw [UInt32.le_iff_toNat_le, hshift, UInt32.toNat_one]
    exact Nat.one_le_two_pow
  rw [UInt32.toNat_and, Nat.testBit_and, UInt32.toNat_not, hmask, show UInt32.size = 2 ^ 32 from rfl,
    Nat.sub_sub, Nat.add_comm 1, Nat.testBit_two_pow_sub_succ (by omega), Nat.testBit_two_pow_sub_one]
  by_cases hi : s.toNat ≤ i
  · simp [hi, Nat.not_lt.mpr hi, Bool.and_comm]
  · simp [hi, Nat.not_le.mp hi]

theorem masked_eq_iff (hs : s.toNat < 32) :
    a &&& ~~~((1 <<< s) - 1) = b &&& ~~~((1 <<< s) - 1) ↔ SameLead 32 (32 - s.toNat) a.toNat b.toNat := by
  rw [← UInt32.toNat_inj, eq_iff_of_cleared hs.le (testBit_masked hs) (testBit_masked hs)]

end Words

end PathForge.Leading
