import KernelImage.Proofs.Elf.Bytes

/-!
# Bytes put together from pieces

`Holds` says that a piece stands at an offset of the bytes. What is read there is then known from
the piece alone: a number that was written, or a text closed by a zero byte.
-/

namespace KernelImage.Elf

def Holds (bytes : ByteArray) (offset : Nat) (piece : List UInt8) : Prop :=
  HasRange bytes offset piece.length ∧ ∀ i < piece.length, bytes[offset + i]? = piece[i]?

theorem getElem?_eq_toList (bytes : ByteArray) (i : Nat) : bytes[i]? = bytes.data.toList[i]? := by
  by_cases h : i < bytes.size
  · rw [getElem?_eq_some_of_lt h, List.getElem?_eq_getElem (by simpa using h)]
    rfl
  · rw [getElem?_neg bytes i h, List.getElem?_eq_none (by simpa using h)]

theorem holds_toByteArray (l : List UInt8) : Holds l.toByteArray 0 l := by
  refine ⟨?_, fun i _ => ?_⟩
  · unfold HasRange
    simp
  · rw [getElem?_eq_toList, Nat.zero_add, List.toList_data_toByteArray]

/-- The bytes that are given place by place. -/
def tabulate (size : Nat) (byte : Nat → UInt8) : ByteArray :=
  ((List.range size).map byte).toByteArray

@[simp]
theorem size_tabulate (size : Nat) (byte : Nat → UInt8) : (tabulate size byte).size = size := by
  simp [tabulate]

theorem getElem?_tabulate {size i : Nat} {byte : Nat → UInt8} :
    (tabulate size byte)[i]? = if i < size then some (byte i) else none := by
  rw [getElem?_eq_toList, tabulate, List.toList_data_toByteArray, List.getElem?_map]
  split
  case isTrue hi => rw [List.getElem?_range hi, Option.map_some]
  case isFalse hi => rw [List.getElem?_eq_none (by simpa using hi), Option.map_none]

theorem holds_append_iff {bytes : ByteArray} {offset : Nat} {a b : List UInt8} :
    Holds bytes offset (a ++ b) ↔ Holds bytes offset a ∧ Holds bytes (offset + a.length) b := by
  unfold Holds HasRange
  rw [List.length_append]
  constructor
  · rintro ⟨hrange, hget⟩
    refine ⟨⟨by omega, fun i hi => ?_⟩, by omega, fun i hi => ?_⟩
    · rw [hget i (by omega), List.getElem?_append_left hi]
    · rw [Nat.add_assoc, hget (a.length + i) (by omega), List.getElem?_append_right (by omega),
        Nat.add_sub_cancel_left]
  · rintro ⟨⟨hrange, hget⟩, hrange', hget'⟩
    refine ⟨by omega, fun i hi => ?_⟩
    by_cases h : i < a.length
    · rw [hget i h, List.getElem?_append_left h]
    · have := hget' (i - a.length) (by omega)
      rw [List.getElem?_append_right (by omega), ← this]
      congr 1
      omega

theorem holds_cons_iff {bytes : ByteArray} {offset : Nat} {b : UInt8} {l : List UInt8} :
    Holds bytes offset (b :: l) ↔ bytes[offset]? = some b ∧ Holds bytes (offset + 1) l := by
  rw [← List.singleton_append, holds_append_iff, List.length_singleton]
  refine and_congr_left fun _ => ?_
  unfold Holds HasRange
  simp only [List.length_singleton, Nat.lt_one_iff, forall_eq, Nat.add_zero, List.getElem?_cons_zero]
  constructor
  · exact fun h => h.2
  · intro h
    refine ⟨?_, h⟩
    by_contra hlt
    rw [getElem?_neg bytes offset (by omega)] at h
    cases h

theorem Holds.hasRange {bytes : ByteArray} {offset : Nat} {piece : List UInt8}
    (h : Holds bytes offset piece) : HasRange bytes offset piece.length := h.1

theorem Holds.extract_eq {bytes : ByteArray} {offset : Nat} {piece : List UInt8}
    (h : Holds bytes offset piece) :
    bytes.extract offset (offset + piece.length) = piece.toByteArray := by
  obtain ⟨hrange, hget⟩ := h
  rw [ByteArray.ext_iff, ← Array.toList_inj, List.toList_data_toByteArray]
  apply List.ext_getElem?
  intro i
  rw [← getElem?_eq_toList, getElem?_extract hrange]
  split
  case isTrue hi => exact hget i hi
  case isFalse hi => rw [List.getElem?_eq_none (by omega)]

/-! ## Numbers -/

/-- A number in `width` bytes, lowest byte first. What does not fit is lost. -/
def numberBytes : Nat → Nat → List UInt8
  | 0, _ => []
  | width + 1, n => .ofNat n :: numberBytes width (n / 256)

@[simp]
theorem length_numberBytes (width n : Nat) : (numberBytes width n).length = width := by
  induction width generalizing n with
  | zero => rfl
  | succ width ih => rw [numberBytes, List.length_cons, ih]

theorem numberBytes_zero (width : Nat) : numberBytes width 0 = List.replicate width 0 := by
  induction width with
  | zero => rfl
  | succ width ih => rw [numberBytes, Nat.zero_div, ih]; rfl

theorem Holds.littleEndian_eq {bytes : ByteArray} {offset width n : Nat}
    (h : Holds bytes offset (numberBytes width n)) (hn : n < 256 ^ width) :
    littleEndian bytes offset width = n := by
  induction width generalizing offset n with
  | zero => rw [littleEndian_zero]; omega
  | succ width ih =>
    rw [numberBytes, holds_cons_iff] at h
    obtain ⟨hlow, hhigh⟩ := h
    rw [Nat.pow_succ] at hn
    have hbyte : byteAt bytes offset = n % 256 := by
      rw [byteAt, hlow]
      exact UInt8.toNat_ofNat'
    rw [littleEndian_succ, ih hhigh (by omega), hbyte]
    omega

theorem Holds.littleEndian_zero {bytes : ByteArray} {offset size : Nat}
    (h : Holds bytes offset (List.replicate size 0)) {skip width : Nat} (hs : skip + width ≤ size) :
    littleEndian bytes (offset + skip) width = 0 := by
  have hzeros : List.replicate size (0 : UInt8) =
      List.replicate skip 0 ++ (numberBytes width 0 ++ List.replicate (size - skip - width) 0) := by
    rw [numberBytes_zero, List.replicate_append_replicate, List.replicate_append_replicate]
    congr 1
    omega
  rw [hzeros, holds_append_iff, holds_append_iff, List.length_replicate] at h
  exact h.2.1.littleEndian_eq (Nat.pow_pos (by decide))

/-! ## Texts -/

def textBytes (text : String) : List UInt8 := text.toUTF8.data.toList

theorem length_textBytes (text : String) : (textBytes text).length = text.toUTF8.size := by
  simp [textBytes]

/-- No byte of the text is zero. -/
def NulFree (text : String) : Prop := 0 ∉ textBytes text

instance (text : String) : Decidable (NulFree text) := inferInstanceAs (Decidable (0 ∉ textBytes text))

def closedText (text : String) : List UInt8 := textBytes text ++ [0]

theorem Holds.hasText {bytes : ByteArray} {offset : Nat} {text : String}
    (h : Holds bytes offset (closedText text)) (hfree : NulFree text) :
    HasText bytes offset text := by
  rw [closedText, holds_append_iff, holds_cons_iff, length_textBytes] at h
  obtain ⟨hcontent, hclosed, -⟩ := h
  refine ⟨?_, hclosed, fun i hi hlt => ?_⟩
  · have hextract := hcontent.extract_eq
    rw [length_textBytes] at hextract
    rw [hextract, ByteArray.ext_iff, List.data_toByteArray, textBytes, Array.toArray_toList]
  · have hget := hcontent.2 (i - offset) (by rw [length_textBytes]; omega)
    rw [show offset + (i - offset) = i by omega] at hget
    rw [hget]
    intro hzero
    exact hfree (List.mem_of_getElem? hzero)

end KernelImage.Elf
