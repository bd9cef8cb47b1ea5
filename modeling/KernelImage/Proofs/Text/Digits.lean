import KernelImage.Text.Hex
import Mathlib.Tactic.Common

/-!
# Numbers read back from their digits

`readDigits` reads the digits that `Nat.toDigits` writes, in every base up to sixteen.
-/

namespace KernelImage

/-- The value of a digit, in lower case. -/
def digitValue? (c : Char) : Option Nat :=
  if '0' ≤ c ∧ c ≤ '9' then some (c.toNat - 48)
  else if 'a' ≤ c ∧ c ≤ 'f' then some (c.toNat - 87)
  else none

def addDigit (base n : Nat) (c : Char) : Option Nat := do
  let v ← digitValue? c
  if v < base then some (n * base + v) else none

/-- The number that the digits stand for, highest digit first. -/
def readDigits (base : Nat) : List Char → Option Nat
  | [] => none
  | c :: cs => (c :: cs).foldlM (addDigit base) 0

theorem digitValue?_digitChar {n : Nat} (h : n < 16) : digitValue? n.digitChar = some n := by
  have hall : ∀ k < 16, digitValue? (Nat.digitChar k) = some k := by decide
  exact hall n h

theorem foldlM_toDigits {base : Nat} (h : 1 < base) (h16 : base ≤ 16) (n : Nat) :
    (Nat.toDigits base n).foldlM (addDigit base) 0 = some n := by
  induction n using Nat.strongRecOn with
  | _ n ih =>
    by_cases hn : n < base
    · rw [Nat.toDigits_of_lt_base hn]
      simp [addDigit, digitValue?_digitChar (Nat.lt_of_lt_of_le hn h16), hn]
    · have hlast : n % base < base := Nat.mod_lt n (by omega)
      have hdiv : n / base < n := Nat.div_lt_self (by omega) h
      rw [Nat.toDigits_of_base_le h (Nat.le_of_not_lt hn), List.foldlM_append, ih _ hdiv]
      simp [addDigit, digitValue?_digitChar (Nat.lt_of_lt_of_le hlast h16), hlast,
        Nat.div_add_mod']

theorem readDigits_toDigits {base : Nat} (h : 1 < base) (h16 : base ≤ 16) (n : Nat) :
    readDigits base (Nat.toDigits base n) = some n := by
  have hfold := foldlM_toDigits h h16 n
  rcases hdigits : Nat.toDigits base n with _ | ⟨c, cs⟩
  · exact absurd hdigits Nat.toDigits_ne_nil
  · rwa [hdigits] at hfold

theorem toList_hex (n : Nat) : (hex n).toList = ['0', 'x'] ++ Nat.toDigits 16 n := by
  simp [hex]

theorem hex_inj {m n : Nat} : hex m = hex n ↔ m = n := by
  constructor
  · intro h
    have hdigits := congrArg String.toList h
    rw [toList_hex, toList_hex, List.append_cancel_left_eq] at hdigits
    have hread := readDigits_toDigits (by decide : 1 < 16) (by decide) m
    rw [hdigits, readDigits_toDigits (by decide) (by decide)] at hread
    exact (Option.some.inj hread).symm
  · rintro rfl
    rfl

theorem mem_toDigits {base : Nat} (h : 1 < base) {n : Nat} {c : Char}
    (hc : c ∈ Nat.toDigits base n) : ∃ k < base, c = Nat.digitChar k := by
  induction n using Nat.strongRecOn with
  | _ n ih =>
    by_cases hn : n < base
    · rw [Nat.toDigits_of_lt_base hn, List.mem_singleton] at hc
      exact ⟨n, hn, hc⟩
    · have hdiv : n / base < n := Nat.div_lt_self (by omega) h
      rw [Nat.toDigits_of_base_le h (Nat.le_of_not_lt hn), List.mem_append, List.mem_singleton] at hc
      rcases hc with hc | rfl
      · exact ih _ hdiv hc
      · exact ⟨n % base, Nat.mod_lt n (by omega), rfl⟩

end KernelImage
