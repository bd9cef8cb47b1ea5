import KernelImage.Proofs.Elf.Symbols

/-!
# Files that agree where they are read

Every reader looks at some bytes only: a number at its own bytes, a text at the bytes up to the zero
byte that closes it. It gives the same answer for all bytes that agree on these.
-/

namespace KernelImage.Elf

/-- The same bytes stand in the range in both, or are missing in both. -/
def SameRange (a b : ByteArray) (offset size : Nat) : Prop :=
  ∀ i, offset ≤ i → i < offset + size → b[i]? = a[i]?

variable {a b : ByteArray} {offset size start : Nat}

theorem SameRange.part {skip width : Nat} (h : SameRange a b offset size)
    (hs : skip + width ≤ size) : SameRange a b (offset + skip) width := by
  intro i hlower hupper
  exact h i (by omega) (by omega)

theorem lt_size_of_getElem?_eq_some {i : Nat} {x : UInt8} (h : a[i]? = some x) : i < a.size := by
  by_contra hlt
  rw [getElem?_neg a i hlt] at h
  cases h

/-- A range with a byte in it reaches as far in the one as in the other. -/
theorem SameRange.hasRange (h : SameRange a b offset size) (ha : HasRange a offset size)
    (hpos : 0 < size) : HasRange b offset size := by
  unfold HasRange at *
  have hlast := h (offset + size - 1) (by omega) (by omega)
  rw [getElem?_eq_some_of_lt (by omega : offset + size - 1 < a.size)] at hlast
  have := lt_size_of_getElem?_eq_some hlast
  omega

theorem SameRange.of_append (a suffix : ByteArray) : SameRange a (a ++ suffix) 0 a.size := by
  intro i _ hi
  have hi : i < a.size := by omega
  rw [getElem?_eq_some_of_lt hi, getElem?_eq_some_of_lt (by rw [ByteArray.size_append]; omega),
    ByteArray.getElem_append_left hi]

theorem SameRange.of_extract {n : Nat} (h : n ≤ a.size) : SameRange a (a.extract 0 n) 0 n := by
  intro i _ hi
  have hi : i < n := by omega
  have hrange : HasRange a 0 n := by unfold HasRange; omega
  have hpart : (a.extract 0 (0 + n))[i]? = if i < n then a[0 + i]? else none :=
    getElem?_extract hrange
  rwa [Nat.zero_add, Nat.zero_add, if_pos hi] at hpart

/-! ## Numbers -/

theorem littleEndian_move {offset' : Nat}
    (h : ∀ i < size, b[offset' + i]? = a[offset + i]?) :
    littleEndian b offset' size = littleEndian a offset size := by
  unfold littleEndian
  congr 1
  apply List.map_congr_left
  intro i hi
  rw [byteAt, byteAt, h i (List.mem_range.mp hi)]

theorem littleEndian_congr (h : SameRange a b offset size) :
    littleEndian b offset size = littleEndian a offset size :=
  littleEndian_move fun i hi => h (offset + i) (by omega) (by omega)

theorem SymbolEntry.of_move {start' : Nat}
    (h : ∀ i < symbolEntrySize, b[start' + i]? = a[start + i]?) :
    SymbolEntry.of b start' = SymbolEntry.of a start := by
  have part (skip width : Nat) (hs : skip + width ≤ 24) :
      littleEndian b (start' + skip) width = littleEndian a (start + skip) width := by
    apply littleEndian_move
    intro i hi
    rw [Nat.add_assoc, Nat.add_assoc]
    exact h (skip + i) (by unfold symbolEntrySize; omega)
  have at0 : littleEndian b start' 4 = littleEndian a start 4 := part 0 4 (by decide)
  have at6 := part 6 2 (by decide)
  have at8 := part 8 8 (by decide)
  rw [SymbolEntry.of, SymbolEntry.of, at0, at6, at8]

theorem SymbolEntry.of_congr (h : SameRange a b start symbolEntrySize) :
    SymbolEntry.of b start = SymbolEntry.of a start :=
  of_move fun i hi => h (start + i) (by omega) (by omega)

namespace SectionHeader

theorem of32_congr (h : SameRange a b start sectionHeaderSize) : of32 b start = of32 a start := by
  have at0 : littleEndian b start 4 = littleEndian a start 4 :=
    littleEndian_congr (h.part (by decide : 0 + 4 ≤ 64))
  have at4 := littleEndian_congr (h.part (by decide : 4 + 4 ≤ 64))
  have at8 := littleEndian_congr (h.part (by decide : 8 + 4 ≤ 64))
  have at12 := littleEndian_congr (h.part (by decide : 12 + 4 ≤ 64))
  have at16 := littleEndian_congr (h.part (by decide : 16 + 4 ≤ 64))
  have at20 := littleEndian_congr (h.part (by decide : 20 + 4 ≤ 64))
  rw [of32, of32, at0, at4, at8, at12, at16, at20]

theorem of64_congr (h : SameRange a b start sectionHeaderSize) : of64 b start = of64 a start := by
  have at0 : littleEndian b start 4 = littleEndian a start 4 :=
    littleEndian_congr (h.part (by decide : 0 + 4 ≤ 64))
  have at4 := littleEndian_congr (h.part (by decide : 4 + 4 ≤ 64))
  have at8 := littleEndian_congr (h.part (by decide : 8 + 8 ≤ 64))
  have at16 := littleEndian_congr (h.part (by decide : 16 + 8 ≤ 64))
  have at24 := littleEndian_congr (h.part (by decide : 24 + 8 ≤ 64))
  have at32 := littleEndian_congr (h.part (by decide : 32 + 8 ≤ 64))
  rw [of64, of64, at0, at4, at8, at16, at24, at32]

end SectionHeader

namespace FileHeader

theorem Decodes.congr {h : FileHeader} (hd : Decodes a h) (hsame : SameRange a b 0 64) :
    Decodes b h := by
  have at0 : littleEndian b 0 4 = littleEndian a 0 4 :=
    littleEndian_congr (hsame.part (by decide : 0 + 4 ≤ 64))
  have hclass : byteAt b 4 = byteAt a 4 := by
    rw [byteAt, byteAt, hsame 4 (by omega) (by omega)]
  have field (offset width : Nat) (hin : offset + width ≤ 64) :
      littleEndian b offset width = littleEndian a offset width := by
    have hpart := hsame.part hin
    rw [Nat.zero_add] at hpart
    exact littleEndian_congr hpart
  have h32 : of32 b = of32 a := by
    rw [of32, of32, field 24 4 (by decide), field 32 4 (by decide), field 46 2 (by decide),
      field 48 2 (by decide), field 50 2 (by decide)]
  have h64 : of64 b = of64 a := by
    rw [of64, of64, field 24 8 (by decide), field 40 8 (by decide), field 58 2 (by decide),
      field 60 2 (by decide), field 62 2 (by decide)]
  refine ⟨?_, ?_, ?_⟩
  · have hroom : HasRange a 0 64 := by unfold HasRange; have := hd.room; omega
    have := hsame.hasRange hroom (by decide)
    unfold HasRange at this
    omega
  · rw [at0, hd.magic]
  · rw [hclass, h32, h64]
    exact hd.fields

end FileHeader

/-! ## Texts -/

/-- Byte `i` is looked at in search of the end of a text: no zero byte comes before it. -/
def Scans (bytes : ByteArray) (start i : Nat) : Prop :=
  start ≤ i ∧ ∀ j, start ≤ j → j < i → bytes[j]? ≠ some 0

theorem Terminated.exists_zero {i : Nat} (h : HasRange a offset size)
    (ht : Terminated (a.extract offset (offset + size)) i) :
    ∃ z, offset + i ≤ z ∧ z < offset + size ∧ a[z]? = some 0 := by
  obtain ⟨z, hz, hzero⟩ := ht
  rw [getElem?_extract h] at hzero
  split at hzero
  case isTrue hlt => exact ⟨offset + z, by omega, by omega, hzero⟩
  case isFalse => cases hzero

theorem Scans.le_of_zero {i z : Nat} (h : Scans a start i) (hz : start ≤ z) (hzero : a[z]? = some 0) :
    i ≤ z := by
  by_contra hlt
  exact h.2 z hz (by omega) hzero

theorem terminator?_congr (h : ∀ i, Scans a start i → b[i]? = a[i]?) :
    terminator? b start = terminator? a start := by
  apply Option.ext
  intro stop
  rw [terminator?_eq_some_iff, terminator?_eq_some_iff]
  constructor
  · rintro ⟨hle, hzero, hfirst⟩
    have hscan (i : Nat) (hi : start ≤ i) (hstop : i ≤ stop) : Scans a start i := by
      -- What was looked at before is the same in both, so it holds no zero byte.
      induction i using Nat.strong_induction_on with
      | h i ih =>
        refine ⟨hi, fun j hj hlt => ?_⟩
        rw [← h j (ih j hlt hj (by omega))]
        exact hfirst j hj (by omega)
    refine ⟨hle, ?_, fun i hi hlt => ?_⟩
    · rw [← h stop (hscan stop hle (by omega))]
      exact hzero
    · rw [← h i (hscan i hi (by omega))]
      exact hfirst i hi hlt
  · rintro ⟨hle, hzero, hfirst⟩
    have hscan (i : Nat) (hi : start ≤ i) (hstop : i ≤ stop) : Scans a start i :=
      ⟨hi, fun j hj hlt => hfirst j hj (by omega)⟩
    refine ⟨hle, ?_, fun i hi hlt => ?_⟩
    · rw [h stop (hscan stop hle (by omega))]
      exact hzero
    · rw [h i (hscan i hi (by omega))]
      exact hfirst i hi hlt

theorem extract_congr (ha : HasRange a offset size) (hb : HasRange b offset size)
    (h : SameRange a b offset size) :
    b.extract offset (offset + size) = a.extract offset (offset + size) := by
  unfold HasRange at ha hb
  have hsizeA : (a.extract offset (offset + size)).size = size := by
    rw [ByteArray.size_extract]; omega
  have hsizeB : (b.extract offset (offset + size)).size = size := by
    rw [ByteArray.size_extract]; omega
  apply ByteArray.ext_getElem (by rw [hsizeA, hsizeB])
  intro i hi _
  have hbyte := h (offset + i) (by omega) (by omega)
  rw [getElem?_eq_some_of_lt (by omega), getElem?_eq_some_of_lt (by omega)] at hbyte
  rw [ByteArray.getElem_extract, ByteArray.getElem_extract]
  exact Option.some.inj hbyte

theorem stringAt_congr (h : ∀ i, Scans a start i → b[i]? = a[i]?) :
    stringAt b start = stringAt a start := by
  unfold stringAt
  rw [terminator?_congr h]
  rcases hstop : terminator? a start with _ | stop
  · rfl
  obtain ⟨hle, hzero, hfirst⟩ := terminator?_eq_some_iff.mp hstop
  have hlt : stop < a.size := lt_size_of_getElem?_eq_some hzero
  have hscan (i : Nat) (hi : start ≤ i) (hile : i ≤ stop) : Scans a start i :=
    ⟨hi, fun j hj hji => hfirst j hj (by omega)⟩
  have hlt' : stop < b.size := by
    rw [← h stop (hscan stop hle le_rfl)] at hzero
    exact lt_size_of_getElem?_eq_some hzero
  have hsame : SameRange a b start (stop - start) :=
    fun i hi hi' => h i (hscan i hi (by omega))
  have hextract := extract_congr (by unfold HasRange; omega) (by unfold HasRange; omega) hsame
  rw [Nat.add_sub_cancel' hle] at hextract
  simp only [hextract]

theorem SymbolEntry.named_congr {e : SymbolEntry}
    (h : ∀ i, Scans a e.nameOffset i → b[i]? = a[i]?) : e.named b = e.named a := by
  rw [SymbolEntry.named, SymbolEntry.named, terminator?_congr h, stringAt_congr h]

/-! ## Section headers -/

namespace File

variable {f g : File}

/-- Both files say the same of their sections. -/
structure SameTable (f g : File) : Prop where
  header : g.header = f.header
  headers : ∀ i < f.header.sectionCount, g.headerAt i = f.headerAt i

theorem HasTable.sameTable (h : f.HasTable) (hheader : g.header = f.header)
    (hsame : SameRange f.bytes g.bytes f.header.tableOffset
      (f.header.sectionCount * sectionHeaderSize)) : f.SameTable g := by
  refine ⟨hheader, fun i hi => ?_⟩
  have hsection : SameRange f.bytes g.bytes (f.sectionOffset i) sectionHeaderSize := by
    rw [sectionOffset, h.stride]
    apply hsame.part
    unfold sectionHeaderSize
    omega
  have hoffset : g.sectionOffset i = f.sectionOffset i := by
    rw [sectionOffset, sectionOffset, hheader]
  unfold headerAt
  rw [hheader, hoffset]
  split
  · exact SectionHeader.of32_congr hsection
  · exact SectionHeader.of64_congr hsection

theorem SameTable.nameTable (h : f.SameTable g) (table : f.HasTable) :
    g.nameTable = f.nameTable := by
  rw [File.nameTable, File.nameTable, h.header, h.headers _ table.nameTable]

theorem SameTable.names_eq (h : f.SameTable g) (table : f.HasTable) (hf : f.NamesInFile)
    (hg : HasRange g.bytes f.nameTable.offset f.nameTable.size)
    (hsame : SameRange f.bytes g.bytes f.nameTable.offset f.nameTable.size) : g.names = f.names := by
  rw [File.names, File.names, h.nameTable table]
  exact extract_congr hf hg hsame

theorem tableAligned_congr (h : g.header = f.header) : g.TableAligned ↔ f.TableAligned := by
  rw [TableAligned, TableAligned, sectionAlignment, sectionAlignment, h]

theorem SameTable.table (h : f.SameTable g) (table : f.HasTable) : g.table = f.table := by
  have hheaders : (List.range f.header.sectionCount).map g.headerAt =
      (List.range f.header.sectionCount).map f.headerAt :=
    List.map_congr_left fun i hi => h.headers i (List.mem_range.mp hi)
  rw [File.table, File.table, h.nameTable table, h.header, hheaders]

end File

end KernelImage.Elf
