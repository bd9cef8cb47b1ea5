import KernelImage.Elf.Bytes
import KernelImage.Proofs.Outcome
import Mathlib.Algebra.BigOperators.Ring.List
import Mathlib.Tactic.Ring

/-!
# What the bytes of an image say

`littleEndian` and `HasText` say what number and what text stand at a place of the bytes, without
any reading order. The readers give just these answers.
-/

namespace KernelImage.Elf

/-! ## Numbers -/

/-- The byte at a place, or zero past the end. -/
def byteAt (bytes : ByteArray) (i : Nat) : Nat := (bytes[i]?.getD 0).toNat

/-- The number that `width` bytes from `offset` on stand for, lowest byte first. -/
def littleEndian (bytes : ByteArray) (offset width : Nat) : Nat :=
  ((List.range width).map fun i => byteAt bytes (offset + i) * 256 ^ i).sum

theorem byteAt_lt (bytes : ByteArray) (i : Nat) : byteAt bytes i < 256 := UInt8.toNat_lt _

@[simp]
theorem littleEndian_zero (bytes : ByteArray) (offset : Nat) : littleEndian bytes offset 0 = 0 := rfl

theorem littleEndian_succ (bytes : ByteArray) (offset width : Nat) :
    littleEndian bytes offset (width + 1) =
      byteAt bytes offset + 256 * littleEndian bytes (offset + 1) width := by
  unfold littleEndian
  rw [List.range_succ_eq_map, List.map_cons, List.sum_cons, List.map_map, ← List.sum_map_mul_left]
  congr 1
  · simp
  · congr 1
    apply List.map_congr_left
    intro i _
    simp only [Function.comp_apply, Nat.pow_succ, show offset + i.succ = offset + 1 + i by omega]
    ring

theorem littleEndian_lt (bytes : ByteArray) (offset width : Nat) :
    littleEndian bytes offset width < 256 ^ width := by
  induction width generalizing offset with
  | zero => simp
  | succ width ih =>
    have hbyte := byteAt_lt bytes offset
    have hrest := ih (offset + 1)
    rw [littleEndian_succ, Nat.pow_succ]
    omega

theorem getElem?_eq_some_of_lt {bytes : ByteArray} {i : Nat} (h : i < bytes.size) :
    bytes[i]? = some bytes[i] := getElem?_pos bytes i h

theorem number?_of_hasRange {bytes : ByteArray} {offset width : Nat}
    (h : HasRange bytes offset width) :
    number? bytes offset width = some (littleEndian bytes offset width) := by
  induction width generalizing offset with
  | zero => rfl
  | succ width ih =>
    have hlow : offset < bytes.size := by unfold HasRange at h; omega
    have hhigh : HasRange bytes (offset + 1) width := by unfold HasRange at h ⊢; omega
    rw [number?, ih hhigh, littleEndian_succ, byteAt, getElem?_eq_some_of_lt hlow]
    rfl

theorem number_of_hasRange {bytes : ByteArray} {offset width : Nat}
    (h : HasRange bytes offset width) :
    number bytes offset width = .ok (littleEndian bytes offset width) := by
  rw [number, number?_of_hasRange h]; rfl

/-! ## Texts -/

def Terminated (bytes : ByteArray) (start : Nat) : Prop := ∃ i, start ≤ i ∧ bytes[i]? = some 0

/-- The text stands at `start`, closed by the first zero byte. -/
structure HasText (bytes : ByteArray) (start : Nat) (text : String) : Prop where
  content : bytes.extract start (start + text.toUTF8.size) = text.toUTF8
  closed : bytes[start + text.toUTF8.size]? = some 0
  first : ∀ i, start ≤ i → i < start + text.toUTF8.size → bytes[i]? ≠ some 0

theorem HasText.terminated {bytes : ByteArray} {start : Nat} {text : String}
    (h : HasText bytes start text) : Terminated bytes start := ⟨_, by omega, h.closed⟩

theorem terminator?_eq_some_iff {bytes : ByteArray} {start stop : Nat} :
    terminator? bytes start = some stop ↔
      start ≤ stop ∧ bytes[stop]? = some 0 ∧ ∀ i, start ≤ i → i < stop → bytes[i]? ≠ some 0 := by
  fun_induction terminator? bytes start with
  | case1 start h hzero =>
    simp only [Option.some.injEq]
    constructor
    · rintro rfl
      exact ⟨le_rfl, by simp [getElem?_eq_some_of_lt h, hzero], by omega⟩
    · rintro ⟨hle, -, hfirst⟩
      by_contra hne
      exact hfirst start le_rfl (by omega) (by simp [getElem?_eq_some_of_lt h, hzero])
  | case2 start h hzero ih =>
    have hstart : bytes[start]? ≠ some 0 := by simpa [getElem?_eq_some_of_lt h] using hzero
    rw [ih]
    constructor
    · rintro ⟨hle, hstop, hfirst⟩
      refine ⟨by omega, hstop, fun i hi hlt => ?_⟩
      rcases Nat.eq_or_lt_of_le hi with rfl | hi
      · exact hstart
      · exact hfirst i hi hlt
    · rintro ⟨hle, hstop, hfirst⟩
      have hne : start ≠ stop := by rintro rfl; exact hstart hstop
      exact ⟨by omega, hstop, fun i hi hlt => hfirst i (by omega) hlt⟩
  | case3 start h =>
    simp only [reduceCtorEq, false_iff, not_and]
    intro hle hstop
    have : stop < bytes.size := by
      by_contra hlt
      rw [getElem?_neg bytes stop hlt] at hstop
      simp at hstop
    omega

theorem terminated_iff_isSome {bytes : ByteArray} {start : Nat} :
    Terminated bytes start ↔ (terminator? bytes start).isSome := by
  fun_induction terminator? bytes start with
  | case1 start h hzero =>
    simpa using ⟨start, le_rfl, by simp [getElem?_eq_some_of_lt h, hzero]⟩
  | case2 start h hzero ih =>
    rw [← ih]
    constructor
    · rintro ⟨i, hi, hbyte⟩
      refine ⟨i, ?_, hbyte⟩
      rcases Nat.eq_or_lt_of_le hi with rfl | hi
      · simp [getElem?_eq_some_of_lt h, hzero] at hbyte
      · exact hi
    · rintro ⟨i, hi, hbyte⟩
      exact ⟨i, by omega, hbyte⟩
  | case3 start h =>
    simp only [Option.isSome_none, Bool.false_eq_true, iff_false]
    rintro ⟨i, hi, hbyte⟩
    rw [getElem?_neg bytes i (by omega)] at hbyte
    simp at hbyte

theorem terminator?_eq_none_iff {bytes : ByteArray} {start : Nat} :
    terminator? bytes start = none ↔ ¬ Terminated bytes start := by
  rw [terminated_iff_isSome]; simp

theorem fromUTF8?_eq_some_iff {bytes : ByteArray} {text : String} :
    String.fromUTF8? bytes = some text ↔ bytes = text.toUTF8 := by
  unfold String.fromUTF8?
  split
  case isTrue h =>
    rw [Option.some.injEq, ← String.toByteArray_inj]
    rfl
  case isFalse h =>
    simp only [reduceCtorEq, false_iff]
    rintro rfl
    exact h text.isValidUTF8

theorem stringAt_eq_ok_iff {bytes : ByteArray} {start : Nat} {text : String} :
    stringAt bytes start = .ok text ↔ HasText bytes start text := by
  unfold stringAt
  constructor
  · intro h
    split at h
    · cases h
    case h_2 stop hstop =>
      obtain ⟨hle, hclosed, hfirst⟩ := terminator?_eq_some_iff.mp hstop
      rw [Outcome.orFault_eq_ok_iff, fromUTF8?_eq_some_iff] at h
      have hlt : stop < bytes.size := by
        by_contra hlt
        rw [getElem?_neg bytes stop hlt] at hclosed
        simp at hclosed
      have hstop' : start + text.toUTF8.size = stop := by
        rw [← h, ByteArray.size_extract]; omega
      exact ⟨by rw [hstop', h], by rw [hstop', hclosed], by rwa [hstop']⟩
  · rintro ⟨hcontent, hclosed, hfirst⟩
    rw [terminator?_eq_some_iff.mpr ⟨by omega, hclosed, hfirst⟩]
    rw [Outcome.orFault_eq_ok_iff, fromUTF8?_eq_some_iff, hcontent]

theorem faults_stringAt_iff {bytes : ByteArray} {start : Nat} :
    (stringAt bytes start).Faults ↔ ∀ text, ¬ HasText bytes start text := by
  simp only [← stringAt_eq_ok_iff]
  unfold stringAt
  split
  · simp [Outcome.fault, Outcome.Faults]
  · simp only [Outcome.faults_orFault_iff, Outcome.orFault_eq_ok_iff, Option.eq_none_iff_forall_ne_some,
      ne_eq]

/-- A terminated run of bytes stands at `start`, but it is no text. -/
def Unreadable (bytes : ByteArray) (start : Nat) : Prop :=
  Terminated bytes start ∧ ∀ text, ¬ HasText bytes start text

theorem HasText.unique {bytes : ByteArray} {start : Nat} {t u : String} (ht : HasText bytes start t)
    (hu : HasText bytes start u) : t = u := by
  rw [← stringAt_eq_ok_iff] at ht hu
  exact Except.ok.inj (ht.symm.trans hu)

/-! ## Parts of the bytes -/

theorem getElem?_extract {bytes : ByteArray} {start size i : Nat} (h : HasRange bytes start size) :
    (bytes.extract start (start + size))[i]? = if i < size then bytes[start + i]? else none := by
  unfold HasRange at h
  have hsize : (bytes.extract start (start + size)).size = size := by
    rw [ByteArray.size_extract]; omega
  split
  case isTrue hi =>
    rw [getElem?_eq_some_of_lt (by omega), getElem?_eq_some_of_lt (by omega), ByteArray.getElem_extract]
  case isFalse hi => exact getElem?_neg _ i (by omega)

theorem hasText_extract_iff {bytes : ByteArray} {start size i : Nat} {text : String}
    (h : HasRange bytes start size) (ht : Terminated (bytes.extract start (start + size)) i) :
    HasText (bytes.extract start (start + size)) i text ↔ HasText bytes (start + i) text := by
  obtain ⟨z, hz, hzero⟩ := ht
  rw [getElem?_extract h] at hzero
  split at hzero
  case isFalse => cases hzero
  have hcontent (n : Nat) (hn : i + n ≤ size) :
      (bytes.extract start (start + size)).extract i (i + n) =
        bytes.extract (start + i) (start + i + n) := by
    rw [ByteArray.extract_extract]
    congr 1
    omega
  constructor
  · rintro ⟨hc, hclosed, hfirst⟩
    rw [getElem?_extract h] at hclosed
    split at hclosed
    case isFalse => cases hclosed
    refine ⟨?_, by rwa [Nat.add_assoc], fun j hj hlt => ?_⟩
    · rw [← hcontent _ (by omega)]; exact hc
    · have := hfirst (j - start) (by omega) (by omega)
      rwa [getElem?_extract h, if_pos (by omega), show start + (j - start) = j by omega] at this
  · rintro ⟨hc, hclosed, hfirst⟩
    have hin : i + text.toUTF8.size < size := by
      by_contra hlt
      exact hfirst (start + z) (by omega) (by omega) hzero
    refine ⟨?_, ?_, fun j hj hlt => ?_⟩
    · rw [hcontent _ (by omega)]; exact hc
    · rwa [getElem?_extract h, if_pos hin, ← Nat.add_assoc]
    · rw [getElem?_extract h, if_pos (by omega)]
      exact hfirst _ (by omega) (by omega)

end KernelImage.Elf
