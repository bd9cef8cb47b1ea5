import KernelImage.Memory.Page
import Mathlib.Algebra.Ring.Nat
import Mathlib.Order.Bounds.Defs
import Mathlib.Tactic.Common

/-!
# Addresses as natural numbers

Sums, differences and page boundaries of addresses, said of the natural numbers that the addresses
stand for. An operation has no result exactly when its exact result does not fit into 64 bits.
-/

namespace KernelImage

/-- The least multiple of the page size that is not below `n`. -/
def roundUp (n : Nat) : Nat := (n + 4095) / 4096 * 4096

theorem le_roundUp (n : Nat) : n ≤ roundUp n := by unfold roundUp; omega

theorem roundUp_lt (n : Nat) : roundUp n < n + 4096 := by unfold roundUp; omega

theorem roundUp_mod (n : Nat) : roundUp n % 4096 = 0 := by unfold roundUp; omega

theorem roundUp_of_mod_eq_zero {n : Nat} (h : n % 4096 = 0) : roundUp n = n := by
  unfold roundUp; omega

theorem roundUp_roundUp (n : Nat) : roundUp (roundUp n) = roundUp n :=
  roundUp_of_mod_eq_zero (roundUp_mod n)

theorem roundUp_mono {m n : Nat} (h : m ≤ n) : roundUp m ≤ roundUp n := by
  unfold roundUp
  omega

theorem le_roundUp_iff_top_lt {n : Nat} : 2 ^ 64 ≤ roundUp n ↔ 2 ^ 64 - 4096 < n := by
  unfold roundUp
  omega

theorem isLeast_roundUp (n : Nat) : IsLeast {m | n ≤ m ∧ 4096 ∣ m} (roundUp n) := by
  constructor
  · exact ⟨le_roundUp n, Nat.dvd_of_mod_eq_zero (roundUp_mod n)⟩
  · rintro m ⟨hle, hdvd⟩
    unfold roundUp
    omega

theorem roundUp_add {m : Nat} (hm : m % 4096 = 0) (n : Nat) : roundUp (m + n) = m + roundUp n := by
  unfold roundUp
  omega

namespace Address

theorem toNat_lt (a : Address) : a.toNat < 2 ^ 64 := a.val.toNat_lt

theorem toNat_inj {a b : Address} : a.toNat = b.toNat ↔ a = b := by
  obtain ⟨a⟩ := a
  obtain ⟨b⟩ := b
  rw [mk.injEq]
  exact UInt64.toNat_inj

theorem toNat_ofNat {n : Nat} (h : n < 2 ^ 64) : (ofNat n).toNat = n :=
  UInt64.toNat_ofNat_of_lt' h

theorem ofNat_toNat (a : Address) : ofNat a.toNat = a := toNat_inj.mp (toNat_ofNat a.toNat_lt)

theorem le_iff_toNat_le {a b : Address} : a ≤ b ↔ a.toNat ≤ b.toNat := UInt64.le_iff_toNat_le

theorem lt_iff_toNat_lt {a b : Address} : a < b ↔ a.toNat < b.toNat := UInt64.lt_iff_toNat_lt

/-! ## Sums and differences -/

theorem offset?_eq_some_iff {a b : Address} {n : UInt64} :
    a.offset? n = some b ↔ b.toNat = a.toNat + n.toNat := by
  unfold offset?
  split
  case isTrue h =>
    have hsum : (Address.mk (a.val + n)).toNat = a.toNat + n.toNat := by
      change (a.val + n).toNat = _
      rw [UInt64.toNat_add]
      exact Nat.mod_eq_of_lt h
    rw [Option.some.injEq, ← toNat_inj, hsum, eq_comm]
  case isFalse h =>
    have := b.toNat_lt
    simp only [reduceCtorEq, false_iff]
    intro hb
    exact h (by rw [← hb]; exact this)

theorem offset?_eq_none_iff {a : Address} {n : UInt64} :
    a.offset? n = none ↔ 2 ^ 64 ≤ a.toNat + n.toNat := by
  unfold offset?
  split
  case isTrue h => simpa using h
  case isFalse h => simpa using h

theorem toNat_offsetOrTop (a : Address) (n : UInt64) :
    (a.offsetOrTop n).toNat = min (a.toNat + n.toNat) (2 ^ 64 - 1) := by
  rw [offsetOrTop]
  rcases hoffset : a.offset? n with _ | b
  · have hle := offset?_eq_none_iff.mp hoffset
    have htop : (ofNat (UInt64.size - 1)).toNat = 2 ^ 64 - 1 := by decide
    rw [Option.getD_none, htop]
    omega
  · have hb := offset?_eq_some_iff.mp hoffset
    have hlt := b.toNat_lt
    rw [Option.getD_some]
    omega

theorem exists_offset?_eq_some {a : Address} {n : UInt64} (h : a.toNat + n.toNat < 2 ^ 64) :
    ∃ b, a.offset? n = some b ∧ b.toNat = a.toNat + n.toNat := by
  rcases hb : a.offset? n with _ | b
  · rw [offset?_eq_none_iff] at hb
    omega
  · exact ⟨b, rfl, offset?_eq_some_iff.mp hb⟩

theorem distance?_eq_some_iff {a b : Address} {n : UInt64} :
    a.distance? b = some n ↔ a.toNat + n.toNat = b.toNat := by
  unfold distance?
  split
  case isTrue h =>
    rw [le_iff_toNat_le] at h
    have hdiff : (b.val - a.val).toNat = b.toNat - a.toNat := UInt64.toNat_sub_of_le _ _ h
    rw [Option.some.injEq, ← UInt64.toNat_inj, hdiff]
    omega
  case isFalse h =>
    rw [le_iff_toNat_le] at h
    simp only [reduceCtorEq, false_iff]
    omega

theorem distance?_eq_none_iff {a b : Address} : a.distance? b = none ↔ b.toNat < a.toNat := by
  unfold distance?
  split
  case isTrue h =>
    rw [le_iff_toNat_le] at h
    simpa using h
  case isFalse h =>
    rw [le_iff_toNat_le] at h
    simpa using h

/-! ## Page boundaries -/

theorem toNat_pageOffset (a : Address) : a.pageOffset.toNat = a.toNat % 4096 := by
  unfold pageOffset
  rw [UInt64.toNat_and]
  exact Nat.and_two_pow_sub_one_eq_mod a.toNat 12

theorem pageAligned_iff {a : Address} : a.PageAligned ↔ a.toNat % 4096 = 0 := by
  rw [PageAligned, ← UInt64.toNat_inj, toNat_pageOffset]; rfl

theorem toNat_padding (a : Address) : (pageSize - a.pageOffset).toNat = 4096 - a.toNat % 4096 := by
  have hle : a.pageOffset ≤ pageSize := by
    rw [UInt64.le_iff_toNat_le, toNat_pageOffset]
    change _ ≤ 4096
    omega
  rw [UInt64.toNat_sub_of_le _ _ hle, toNat_pageOffset]; rfl

theorem alignUp?_eq_some_iff {a b : Address} :
    a.alignUp? = some b ↔ b.toNat = roundUp a.toNat := by
  unfold alignUp?
  split
  case isTrue h =>
    rw [pageAligned_iff] at h
    rw [Option.some.injEq, ← toNat_inj, roundUp_of_mod_eq_zero h, eq_comm]
  case isFalse h =>
    rw [pageAligned_iff] at h
    rw [offset?_eq_some_iff, toNat_padding]
    unfold roundUp
    omega

theorem alignUp?_eq_none_iff {a : Address} : a.alignUp? = none ↔ 2 ^ 64 ≤ roundUp a.toNat := by
  have hlt := a.toNat_lt
  unfold alignUp?
  split
  case isTrue h =>
    rw [pageAligned_iff] at h
    rw [roundUp_of_mod_eq_zero h]
    simpa using hlt
  case isFalse h =>
    rw [pageAligned_iff] at h
    rw [offset?_eq_none_iff, toNat_padding]
    unfold roundUp
    omega

theorem afterPadded?_eq_some_iff {a b : Address} {n : UInt64} :
    a.afterPadded? n = some b ↔ b.toNat = roundUp (a.toNat + n.toNat) := by
  simp only [afterPadded?, Option.bind_eq_some_iff, offset?_eq_some_iff, alignUp?_eq_some_iff]
  constructor
  · rintro ⟨c, hc, hb⟩
    rw [hb, hc]
  · intro hb
    have hle := le_roundUp (a.toNat + n.toNat)
    have hlt := b.toNat_lt
    have hc : (ofNat (a.toNat + n.toNat)).toNat = a.toNat + n.toNat := toNat_ofNat (by omega)
    exact ⟨_, hc, by rw [hb, hc]⟩

end Address

end KernelImage
