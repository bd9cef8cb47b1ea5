import KernelImage.Proofs.Elf.Header

/-!
# What the section header table says

`File.headerAt` is the section header with a given index, read off the bytes. The table is accepted
exactly when `File.TableOk` holds of the file, and then it lists these headers in order.
-/

namespace KernelImage.Elf

namespace SectionHeader

def of32 (bytes : ByteArray) (start : Nat) : SectionHeader where
  nameOffset := littleEndian bytes start 4
  typeCode := littleEndian bytes (start + 4) 4
  flags := littleEndian bytes (start + 8) 4
  address := .ofNat (littleEndian bytes (start + 12) 4)
  offset := littleEndian bytes (start + 16) 4
  size := littleEndian bytes (start + 20) 4

def of64 (bytes : ByteArray) (start : Nat) : SectionHeader where
  nameOffset := littleEndian bytes start 4
  typeCode := littleEndian bytes (start + 4) 4
  flags := littleEndian bytes (start + 8) 8
  address := .ofNat (littleEndian bytes (start + 16) 8)
  offset := littleEndian bytes (start + 24) 8
  size := littleEndian bytes (start + 32) 8

theorem number_within {bytes : ByteArray} {start size : Nat} (h : HasRange bytes start size)
    {skip width : Nat} (hs : skip + width ≤ size) :
    number bytes (start + skip) width = .ok (littleEndian bytes (start + skip) width) := by
  apply number_of_hasRange
  unfold HasRange at *
  omega

theorem read32_eq {bytes : ByteArray} {start : Nat} (h : HasRange bytes start sectionHeaderSize) :
    read32 bytes start = .ok (of32 bytes start) := by
  have at0 : number bytes start 4 = .ok (littleEndian bytes start 4) :=
    number_within h (by decide : 0 + 4 ≤ 64)
  have at4 := number_within h (by decide : 4 + 4 ≤ 64)
  have at8 := number_within h (by decide : 8 + 4 ≤ 64)
  have at12 := number_within h (by decide : 12 + 4 ≤ 64)
  have at16 := number_within h (by decide : 16 + 4 ≤ 64)
  have at20 := number_within h (by decide : 20 + 4 ≤ 64)
  simp only [read32, at0, at4, at8, at12, at16, at20, ok_bind]
  rfl

theorem read64_eq {bytes : ByteArray} {start : Nat} (h : HasRange bytes start sectionHeaderSize) :
    read64 bytes start = .ok (of64 bytes start) := by
  have at0 : number bytes start 4 = .ok (littleEndian bytes start 4) :=
    number_within h (by decide : 0 + 4 ≤ 64)
  have at4 := number_within h (by decide : 4 + 4 ≤ 64)
  have at8 := number_within h (by decide : 8 + 8 ≤ 64)
  have at16 := number_within h (by decide : 16 + 8 ≤ 64)
  have at24 := number_within h (by decide : 24 + 8 ≤ 64)
  have at32 := number_within h (by decide : 32 + 8 ≤ 64)
  simp only [read64, at0, at4, at8, at16, at24, at32, ok_bind]
  rfl

end SectionHeader

namespace File

def of64 (bytes : ByteArray) : File := ⟨bytes, .of64 bytes⟩

/-! ## Single headers -/

def headerAt (f : File) (i : Nat) : SectionHeader :=
  match f.header.fileClass with
  | .bits32 => .of32 f.bytes (f.sectionOffset i)
  | .bits64 => .of64 f.bytes (f.sectionOffset i)

theorem headerAt_of64 (bytes : ByteArray) (i : Nat) :
    (of64 bytes).headerAt i = .of64 bytes ((of64 bytes).sectionOffset i) := rfl

/-- The file header describes a table inside the file that has a section for the names. -/
structure HasTable (f : File) : Prop where
  nonempty : f.header.sectionCount ≠ 0
  stride : f.header.tableStride = sectionHeaderSize
  inFile : HasRange f.bytes f.header.tableOffset (f.header.sectionCount * sectionHeaderSize)
  nameTable : f.header.nameTableIndex < f.header.sectionCount

/-- The table starts on the boundary that section headers need. -/
def TableAligned (f : File) : Prop := f.header.tableOffset % f.sectionAlignment = 0

instance (f : File) : Decidable f.TableAligned :=
  inferInstanceAs (Decidable (f.header.tableOffset % f.sectionAlignment = 0))

theorem HasTable.sectionOffset_mod_eq_zero_iff {f : File} (h : f.HasTable) (i : Nat) :
    f.sectionOffset i % f.sectionAlignment = 0 ↔ f.TableAligned := by
  unfold TableAligned sectionOffset sectionAlignment
  rw [h.stride, sectionHeaderSize]
  split <;> omega

theorem HasTable.hasRange_section {f : File} (h : f.HasTable) {i : Nat}
    (hi : i < f.header.sectionCount) :
    HasRange f.bytes (f.sectionOffset i) sectionHeaderSize := by
  have hfile := h.inFile
  unfold HasRange sectionOffset at *
  rw [h.stride]
  unfold sectionHeaderSize at *
  omega

theorem HasTable.sectionHeader_eq {f : File} (h : f.HasTable) {i : Nat}
    (hi : i < f.header.sectionCount) :
    f.sectionHeader i =
      (do ensure (i < reservedIndices) (.fault .reservedIndex)
          ensure f.TableAligned (.fault .misaligned)
          return f.headerAt i) := by
  have hrange := h.hasRange_section hi
  unfold sectionHeader headerAt
  simp only [h.sectionOffset_mod_eq_zero_iff i]
  congr 1; funext _
  congr 1; funext _
  cases f.header.fileClass with
  | bits32 => exact SectionHeader.read32_eq hrange
  | bits64 => exact SectionHeader.read64_eq hrange

theorem HasTable.sectionHeader_eq_ok_iff {f : File} (h : f.HasTable) {i : Nat}
    (hi : i < f.header.sectionCount) {s : SectionHeader} :
    f.sectionHeader i = .ok s ↔ i < reservedIndices ∧ f.TableAligned ∧ f.headerAt i = s := by
  rw [h.sectionHeader_eq hi]
  simp only [bind_eq_ok_iff, ensure_eq_ok_iff, pure_eq_ok_iff, exists_const]

theorem HasTable.faults_sectionHeader_iff {f : File} (h : f.HasTable) {i : Nat}
    (hi : i < f.header.sectionCount) :
    (f.sectionHeader i).Faults ↔ ¬ (i < reservedIndices ∧ f.TableAligned) := by
  rw [h.sectionHeader_eq hi]
  simp only [Outcome.faults_bind_iff, Outcome.faults_ensure_iff, ensure_eq_ok_iff, exists_const,
    Outcome.not_faults_pure]
  tauto

/-! ## The names -/

def nameTable (f : File) : SectionHeader := f.headerAt f.header.nameTableIndex

def names (f : File) : ByteArray :=
  f.bytes.extract f.nameTable.offset (f.nameTable.offset + f.nameTable.size)

def NamesInFile (f : File) : Prop := HasRange f.bytes f.nameTable.offset f.nameTable.size

theorem range_eq_ok_iff {f : File} {offset size : Nat} {b : ByteArray} :
    f.range offset size = .ok b ↔
      HasRange f.bytes offset size ∧ f.bytes.extract offset (offset + size) = b := by
  simp only [range, bind_eq_ok_iff, require_eq_ok_iff, pure_eq_ok_iff, exists_const]

theorem not_faults_range {f : File} {offset size : Nat} : ¬ (f.range offset size).Faults := by
  simp only [range, Outcome.faults_bind_iff, not_faults_require, Outcome.not_faults_pure, and_false,
    exists_false, or_false, not_false_eq_true]

/-! ## Checked sections -/

/-- The section is null, or it has a known type, its bytes in the file and a terminated name. -/
def SectionOk (f : File) (s : SectionHeader) : Prop :=
  s.type? = some .null ∨
    s.type?.isSome ∧ (s.type? = some .noBits ∨ HasRange f.bytes s.offset s.size) ∧
      Terminated f.names s.nameOffset

theorem checkSection_eq_ok_iff {f : File} {s : SectionHeader} {u : Unit} :
    f.checkSection f.names s = .ok u ↔ f.SectionOk s := by
  unfold checkSection SectionOk
  rw [terminated_iff_isSome]
  rcases s.type? with _ | t
  · simp [reject]
  cases t <;> simp [bind_eq_ok_iff, require_eq_ok_iff]

theorem not_faults_checkSection {f : File} {names : ByteArray} {s : SectionHeader} :
    ¬ (f.checkSection names s).Faults := by
  unfold checkSection
  split
  · exact not_faults_reject
  · exact Outcome.not_faults_ok _
  · simp only [Outcome.faults_bind_iff, not_faults_require, and_false, exists_false, or_false,
      not_false_eq_true]

/-- The step of `sectionTable` at one index: the header, with its check. -/
def examine (f : File) (i : Nat) : Outcome SectionHeader := do
  let s ← f.sectionHeader i
  f.checkSection f.names s
  return s

theorem HasTable.examine_eq_ok_iff {f : File} (h : f.HasTable) {i : Nat}
    (hi : i < f.header.sectionCount) {s : SectionHeader} :
    f.examine i = .ok s ↔
      (i < reservedIndices ∧ f.TableAligned ∧ f.SectionOk (f.headerAt i)) ∧ f.headerAt i = s := by
  simp only [examine, bind_eq_ok_iff, h.sectionHeader_eq_ok_iff hi, checkSection_eq_ok_iff,
    pure_eq_ok_iff, exists_const]
  constructor
  · rintro ⟨_, ⟨hres, hal, rfl⟩, hok, rfl⟩
    exact ⟨⟨hres, hal, hok⟩, rfl⟩
  · rintro ⟨⟨hres, hal, hok⟩, rfl⟩
    exact ⟨_, ⟨hres, hal, rfl⟩, hok, rfl⟩

theorem HasTable.faults_examine_iff {f : File} (h : f.HasTable) {i : Nat}
    (hi : i < f.header.sectionCount) :
    (f.examine i).Faults ↔ ¬ (i < reservedIndices ∧ f.TableAligned) := by
  simp only [examine, Outcome.faults_bind_iff, h.faults_sectionHeader_iff hi,
    not_faults_checkSection, Outcome.not_faults_pure, and_false, exists_false, or_false]

/-! ## The table -/

def table (f : File) : SectionTable where
  namesOffset := f.nameTable.offset
  headers := (List.range f.header.sectionCount).map f.headerAt

structure TableOk (f : File) : Prop extends f.HasTable where
  aligned : f.TableAligned
  few : f.header.sectionCount ≤ reservedIndices
  names : f.NamesInFile
  sections : ∀ i < f.header.sectionCount, f.SectionOk (f.headerAt i)

theorem HasTable.headers_eq_ok_iff {f : File} (h : f.HasTable) {hs : List SectionHeader} :
    (List.range f.header.sectionCount).mapM f.examine = .ok hs ↔
      (∀ i < f.header.sectionCount,
        i < reservedIndices ∧ f.TableAligned ∧ f.SectionOk (f.headerAt i)) ∧
      f.table.headers = hs := by
  rw [mapM_eq_ok_iff_of_mem fun i hi s => h.examine_eq_ok_iff (List.mem_range.mp hi),
    List.forall₂_and_left, ← List.forall₂_map_left_iff, List.forall₂_eq_eq_eq]
  simp only [List.mem_range, table]

theorem sectionTable_eq_ok_iff {f : File} {t : SectionTable} :
    f.sectionTable = .ok t ↔ f.TableOk ∧ f.table = t := by
  simp only [sectionTable, bind_eq_ok_iff, require_eq_ok_iff, pure_eq_ok_iff, exists_const]
  constructor
  · rintro ⟨hne, hstride, hfile, hindex, nameTable, hnameTable, names, hnames, headers, hheaders, rfl⟩
    have h : f.HasTable := ⟨hne, hstride, hfile, hindex⟩
    obtain ⟨-, hal, rfl⟩ := (h.sectionHeader_eq_ok_iff hindex).mp hnameTable
    obtain ⟨hin, rfl⟩ := range_eq_ok_iff.mp hnames
    obtain ⟨hall, rfl⟩ := h.headers_eq_ok_iff.mp hheaders
    refine ⟨⟨h, hal, ?_, hin, fun i hi => (hall i hi).2.2⟩, rfl⟩
    by_contra hmany
    exact Nat.lt_irrefl _ (hall reservedIndices (by omega)).1
  · rintro ⟨⟨h, hal, hfew, hin, hall⟩, rfl⟩
    refine ⟨h.nonempty, h.stride, h.inFile, h.nameTable, f.nameTable, ?_, f.names, ?_,
      f.table.headers, ?_, rfl⟩
    · exact (h.sectionHeader_eq_ok_iff h.nameTable).mpr ⟨by have := h.nameTable; omega, hal, rfl⟩
    · exact range_eq_ok_iff.mpr ⟨hin, rfl⟩
    · exact h.headers_eq_ok_iff.mpr ⟨fun i hi => ⟨by omega, hal, hall i hi⟩, rfl⟩

/--
Reading the table faults in three ways: the table does not start on its boundary, the names are in
a section with a reserved index, or a section with a reserved index comes after sound ones.
-/
theorem faults_sectionTable_iff {f : File} :
    f.sectionTable.Faults ↔ f.HasTable ∧
      (¬ f.TableAligned ∨ reservedIndices ≤ f.header.nameTableIndex ∨
        f.NamesInFile ∧ reservedIndices < f.header.sectionCount ∧
          ∀ i < reservedIndices, f.SectionOk (f.headerAt i)) := by
  simp only [sectionTable, Outcome.faults_bind_iff, require_eq_ok_iff, not_faults_require,
    not_faults_range, Outcome.not_faults_pure, exists_const, false_or, and_false, or_false]
  constructor
  · rintro ⟨hne, hstride, hfile, hindex, hfault⟩
    have h : f.HasTable := ⟨hne, hstride, hfile, hindex⟩
    refine ⟨h, ?_⟩
    rw [h.faults_sectionHeader_iff hindex] at hfault
    rcases hfault with hfault | ⟨nameTable, hnameTable, names, hnames, hfault⟩
    · by_cases hal : f.TableAligned
      · exact .inr (.inl (Nat.le_of_not_lt fun hlt => hfault ⟨hlt, hal⟩))
      · exact .inl hal
    obtain ⟨hres, hal, rfl⟩ := (h.sectionHeader_eq_ok_iff hindex).mp hnameTable
    obtain ⟨hin, rfl⟩ := range_eq_ok_iff.mp hnames
    obtain ⟨i, hi, hfault, hpre⟩ := Outcome.faults_mapM_range_iff.mp hfault
    have hreserved : reservedIndices ≤ i :=
      Nat.le_of_not_lt fun hlt => (h.faults_examine_iff hi).mp hfault ⟨hlt, hal⟩
    refine .inr (.inr ⟨hin, by omega, fun j hj => ?_⟩)
    obtain ⟨s, hs⟩ := hpre j (by omega)
    exact ((h.examine_eq_ok_iff (by omega)).mp hs).1.2.2
  · rintro ⟨h, hcases⟩
    refine ⟨h.nonempty, h.stride, h.inFile, h.nameTable, ?_⟩
    rw [h.faults_sectionHeader_iff h.nameTable]
    by_cases hfirst : f.header.nameTableIndex < reservedIndices ∧ f.TableAligned
    · obtain ⟨hres, hal⟩ := hfirst
      obtain ⟨hin, hmany, hall⟩ : f.NamesInFile ∧ reservedIndices < f.header.sectionCount ∧
          ∀ i < reservedIndices, f.SectionOk (f.headerAt i) := by
        rcases hcases with hmis | hindex | hrest
        · exact absurd hal hmis
        · omega
        · exact hrest
      refine .inr ⟨f.nameTable, ?_, f.names, range_eq_ok_iff.mpr ⟨hin, rfl⟩, ?_⟩
      · exact (h.sectionHeader_eq_ok_iff h.nameTable).mpr ⟨hres, hal, rfl⟩
      refine Outcome.faults_mapM_range_iff.mpr ⟨reservedIndices, hmany, ?_, fun j hj => ?_⟩
      · exact (h.faults_examine_iff hmany).mpr fun hlt => Nat.lt_irrefl _ hlt.1
      · exact ⟨_, (h.examine_eq_ok_iff (by omega)).mpr ⟨⟨hj, hal, hall j hj⟩, rfl⟩⟩
    · exact .inl hfirst

end File

end KernelImage.Elf
