import KernelImage.Elf.Section
import KernelImage.Proofs.Elf.Bytes

/-! # What the header of a file says -/

namespace KernelImage.Elf

theorem littleEndian_one (bytes : ByteArray) (offset : Nat) :
    littleEndian bytes offset 1 = byteAt bytes offset := by
  rw [littleEndian_succ, littleEndian_zero]; rfl

/-! ## Requirements -/

theorem require_eq_ok_iff {c : Prop} [Decidable c] {m : Malformed} {u : Unit} :
    require c m = .ok u ↔ c := ensure_eq_ok_iff

theorem require_of {c : Prop} [Decidable c] {m : Malformed} (h : c) : require c m = .ok () :=
  require_eq_ok_iff.mpr h

theorem not_faults_require {c : Prop} [Decidable c] {m : Malformed} : ¬ (require c m).Faults :=
  Outcome.not_faults_ensure_defect

theorem reject_ne_ok {α : Type} {m : Malformed} {a : α} : reject m ≠ .ok a := by simp [reject]

@[simp]
theorem reject_bind {α β : Type} (m : Malformed) (f : α → Outcome β) :
    (reject m >>= f) = reject m := rfl

theorem not_faults_reject {α : Type} {m : Malformed} : ¬ (reject m : Outcome α).Faults := by
  simp [reject, Malformed.failure, Outcome.Faults]

/-! ## The header -/

namespace FileHeader

def of32 (bytes : ByteArray) : FileHeader where
  fileClass := .bits32
  entry := .ofNat (littleEndian bytes 24 4)
  tableOffset := littleEndian bytes 32 4
  tableStride := littleEndian bytes 46 2
  sectionCount := littleEndian bytes 48 2
  nameTableIndex := littleEndian bytes 50 2

def of64 (bytes : ByteArray) : FileHeader where
  fileClass := .bits64
  entry := .ofNat (littleEndian bytes 24 8)
  tableOffset := littleEndian bytes 40 8
  tableStride := littleEndian bytes 58 2
  sectionCount := littleEndian bytes 60 2
  nameTableIndex := littleEndian bytes 62 2

theorem hasRange_of_le {bytes : ByteArray} {offset width n : Nat} (h : n ≤ bytes.size)
    (hn : offset + width ≤ n) : HasRange bytes offset width := by
  unfold HasRange; omega

theorem read32_eq {bytes : ByteArray} (h : fileHeaderSize ≤ bytes.size) :
    read32 bytes = .ok (of32 bytes) := by
  unfold fileHeaderSize at h
  have range (offset width : Nat) (hn : offset + width ≤ 64) := hasRange_of_le h hn
  simp only [read32, number_of_hasRange (range _ _ (by decide : 24 + 4 ≤ 64)),
    number_of_hasRange (range _ _ (by decide : 32 + 4 ≤ 64)),
    number_of_hasRange (range _ _ (by decide : 46 + 2 ≤ 64)),
    number_of_hasRange (range _ _ (by decide : 48 + 2 ≤ 64)),
    number_of_hasRange (range _ _ (by decide : 50 + 2 ≤ 64))]
  rfl

theorem read64_eq {bytes : ByteArray} (h : fileHeaderSize ≤ bytes.size) :
    read64 bytes = .ok (of64 bytes) := by
  unfold fileHeaderSize at h
  have range (offset width : Nat) (hn : offset + width ≤ 64) := hasRange_of_le h hn
  simp only [read64, number_of_hasRange (range _ _ (by decide : 24 + 8 ≤ 64)),
    number_of_hasRange (range _ _ (by decide : 40 + 8 ≤ 64)),
    number_of_hasRange (range _ _ (by decide : 58 + 2 ≤ 64)),
    number_of_hasRange (range _ _ (by decide : 60 + 2 ≤ 64)),
    number_of_hasRange (range _ _ (by decide : 62 + 2 ≤ 64))]
  rfl

/-- The file has room for a header, starts as an ELF file does, and `h` is its header. -/
structure Decodes (bytes : ByteArray) (h : FileHeader) : Prop where
  room : 64 ≤ bytes.size
  magic : littleEndian bytes 0 4 = magic
  fields : byteAt bytes 4 = 1 ∧ h = of32 bytes ∨ byteAt bytes 4 = 2 ∧ h = of64 bytes

theorem read_eq {bytes : ByteArray} (h : 64 ≤ bytes.size) (hm : littleEndian bytes 0 4 = magic) :
    read bytes =
      if byteAt bytes 4 = 1 then .ok (of32 bytes)
      else if byteAt bytes 4 = 2 then .ok (of64 bytes)
      else reject .invalidClass := by
  have hstart := number_of_hasRange (hasRange_of_le h (by decide : 0 + 4 ≤ 64))
  have hclass := number_of_hasRange (hasRange_of_le h (by decide : 4 + 1 ≤ 64))
  rw [littleEndian_one] at hclass
  rw [read, require_of (by exact h), ok_bind, hstart, ok_bind, require_of hm, ok_bind, hclass, ok_bind,
    read32_eq h, read64_eq h]
  split <;> simp_all

theorem decodes_of_read {bytes : ByteArray} {h : FileHeader} (hr : read bytes = .ok h) :
    64 ≤ bytes.size ∧ littleEndian bytes 0 4 = magic := by
  unfold read at hr
  simp only [bind_eq_ok_iff, require_eq_ok_iff] at hr
  obtain ⟨-, hroom, start, hstart, -, hmagic, -⟩ := hr
  have hroom : 64 ≤ bytes.size := hroom
  rw [number_of_hasRange (hasRange_of_le hroom (by decide : 0 + 4 ≤ 64)), Except.ok.injEq] at hstart
  exact ⟨hroom, hstart.trans hmagic⟩

theorem read_eq_ok_iff {bytes : ByteArray} {h : FileHeader} :
    read bytes = .ok h ↔ Decodes bytes h := by
  constructor
  · intro hr
    obtain ⟨hroom, hmagic⟩ := decodes_of_read hr
    refine ⟨hroom, hmagic, ?_⟩
    rw [read_eq hroom hmagic] at hr
    split at hr
    · exact .inl ⟨‹_›, (Except.ok.inj hr).symm⟩
    split at hr
    · exact .inr ⟨‹_›, (Except.ok.inj hr).symm⟩
    · exact absurd hr reject_ne_ok
  · rintro ⟨hroom, hmagic, ⟨hclass, rfl⟩ | ⟨hclass, rfl⟩⟩ <;>
      simp [read_eq hroom hmagic, hclass]

theorem not_faults_read (bytes : ByteArray) : ¬ (read bytes).Faults := by
  by_cases hroom : 64 ≤ bytes.size
  · by_cases hmagic : littleEndian bytes 0 4 = magic
    · rw [read_eq hroom hmagic]
      split
      · exact Outcome.not_faults_ok _
      split
      · exact Outcome.not_faults_ok _
      · exact not_faults_reject
    · have hstart := number_of_hasRange (hasRange_of_le hroom (by decide : 0 + 4 ≤ 64))
      simp only [read, Outcome.faults_bind_iff, require_eq_ok_iff, hstart, Except.ok.injEq]
      rintro (h | ⟨-, -, h | ⟨_, rfl, h | ⟨-, h, -⟩⟩⟩)
      · exact not_faults_require h
      · exact Outcome.not_faults_ok _ h
      · exact not_faults_require h
      · exact hmagic h
  · simp only [read, Outcome.faults_bind_iff, require_eq_ok_iff]
    rintro (h | ⟨-, h, -⟩)
    · exact not_faults_require h
    · exact hroom h

end FileHeader

theorem File.ofBytes_eq_ok_iff {bytes : ByteArray} {f : File} :
    File.ofBytes bytes = .ok f ↔ f.bytes = bytes ∧ FileHeader.Decodes bytes f.header := by
  simp only [File.ofBytes, bind_eq_ok_iff, pure_eq_ok_iff, FileHeader.read_eq_ok_iff]
  constructor
  · rintro ⟨h, hd, rfl⟩
    exact ⟨rfl, hd⟩
  · rintro ⟨rfl, hd⟩
    exact ⟨f.header, hd, rfl⟩

theorem File.not_faults_ofBytes (bytes : ByteArray) : ¬ (File.ofBytes bytes).Faults := by
  simp only [File.ofBytes, Outcome.faults_bind_iff, FileHeader.not_faults_read,
    Outcome.not_faults_pure, and_false, exists_false, or_false, not_false_eq_true]

end KernelImage.Elf
