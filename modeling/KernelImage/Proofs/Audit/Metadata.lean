import KernelImage.Proofs.Audit.Bounds
import KernelImage.Proofs.Audit.Sound

/-!
# The metadata of an image

An accepting audit depends on the metadata of the image only: the header, the section headers, and
the names and symbols that they lead to. An image that keeps them is accepted with the same report.
An image that is cut short keeps them, or is reported as malformed.
-/

namespace KernelImage

namespace Elf

namespace File

/-- Byte `i` belongs to what describes the image, not to its code or data. -/
inductive Metadata (f : File) (i : Nat) : Prop where
  | header (upper : i < fileHeaderSize)
  | table (lower : f.header.tableOffset ≤ i)
      (upper : i < f.header.tableOffset + f.header.sectionCount * sectionHeaderSize)
  | sectionNames (lower : f.nameTable.offset ≤ i)
      (upper : i < f.nameTable.offset + f.nameTable.size)
  | symtab {s : SectionHeader} (first : f.FirstNamed ".symtab" s) (lower : s.offset ≤ i)
      (upper : i < s.offset + s.size)
  | strtab {s : SectionHeader} (first : f.FirstNamed ".strtab" s) (lower : s.offset ≤ i)
      (upper : i < s.offset + s.size)

variable {f g : File}

theorem TableOk.metadata_of_reads (ok : f.TableOk) {i : Nat} (h : f.Reads i) : f.Metadata i := by
  cases h with
  | header upper => exact .header upper
  | table lower upper => exact .table lower upper
  | sectionName hs scan =>
    have hlower := scan.1
    exact .sectionNames (by omega) (ok.lt_of_scans_name hs scan)
  | contents first hbits lower upper => exact .symtab first lower upper
  | symbolName checked class64 symtabType names hk lower upper scan =>
    exact .strtab names lower upper

theorem FirstNamed.unique {name : String} {s t : SectionHeader} (hs : f.FirstNamed name s)
    (ht : f.FirstNamed name t) : s = t := by
  obtain ⟨i, hi, rfl, hname, hfirst⟩ := hs
  obtain ⟨j, hj, rfl, hname', hfirst'⟩ := ht
  rcases Nat.lt_trichotomy i j with hlt | rfl | hlt
  · exact absurd hname (hfirst' i hlt)
  · rfl
  · exact absurd hname' (hfirst j hlt)

theorem TableOk.nameTable_size_pos (ok : f.TableOk) {s : SectionHeader} (hs : s ∈ f.namedHeaders) :
    0 < f.nameTable.size := by
  obtain ⟨z, hz, hlt, -⟩ := (ok.sectionOk_of_mem hs).2.2.exists_zero ok.names
  omega

theorem SameTable.hasRange_of_mem (h : f.SameTable g) (table : f.HasTable) (ok : g.TableOk)
    {s : SectionHeader} (hs : s ∈ f.namedHeaders) (hbits : s.typeCode ≠ 8) :
    HasRange g.bytes s.offset s.size := by
  rw [← h.namedHeaders_eq table] at hs
  exact ok.hasRange_of_mem hs hbits

theorem HasSymbols.lt_size_of_metadata {symtab strtab : SectionHeader}
    (symbols : f.HasSymbols symtab strtab) (table : f.HasTable) (h : f.SameTable g)
    (hroom : fileHeaderSize ≤ g.bytes.size) (ok : g.TableOk) {i : Nat} (hi : f.Metadata i) :
    i < g.bytes.size := by
  have within {offset size : Nat} (hrange : HasRange g.bytes offset size)
      (hi : i < offset + size) : i < g.bytes.size := Nat.lt_of_lt_of_le hi hrange
  cases hi with
  | header upper => omega
  | table lower upper =>
    have hfile := ok.inFile
    rw [h.header] at hfile
    exact within hfile upper
  | sectionNames lower upper =>
    have hnames := ok.names
    rw [NamesInFile, h.nameTable table] at hnames
    exact within hnames upper
  | symtab first lower upper =>
    rw [first.unique symbols.symtabFirst] at upper
    have hbits : symtab.typeCode ≠ 8 := by rw [symbols.symtabType]; decide
    exact within (h.hasRange_of_mem table ok symbols.symtabFirst.mem hbits) upper
  | strtab first lower upper =>
    rw [first.unique symbols.strtabFirst] at upper
    have hbits : strtab.typeCode ≠ 8 := by rw [symbols.strtabType]; decide
    exact within (h.hasRange_of_mem table ok symbols.strtabFirst.mem hbits) upper

theorem SameTable.tableOk (h : f.SameTable g) (ok : f.TableOk)
    (inFile : HasRange g.bytes f.header.tableOffset (f.header.sectionCount * sectionHeaderSize))
    (names : HasRange g.bytes f.nameTable.offset f.nameTable.size)
    (hnames : SameRange f.bytes g.bytes f.nameTable.offset f.nameTable.size)
    (sections : ∀ s ∈ f.namedHeaders, s.typeCode ≠ 8 → HasRange g.bytes s.offset s.size) :
    g.TableOk := by
  have hnameTable := h.nameTable ok.toHasTable
  have hextract := h.names_eq ok.toHasTable ok.names names hnames
  refine
    { nonempty := h.header ▸ ok.nonempty
      stride := h.header ▸ ok.stride
      inFile := h.header ▸ inFile
      nameTable := h.header ▸ ok.nameTable
      aligned := (tableAligned_congr h.header).mpr ok.aligned
      few := h.header ▸ ok.few
      names := ?_
      sections := fun i hi => ?_ }
  · rw [NamesInFile, hnameTable]
    exact names
  · rw [h.header] at hi
    rw [h.headers i hi, SectionOk, hextract]
    by_cases hnull : (f.headerAt i).typeCode = 0
    · exact .inl ((SectionHeader.type?_eq_some_iff (by decide)).mpr hnull)
    have hmem := mem_namedHeaders hi hnull
    obtain ⟨htype, -, hname⟩ := ok.sectionOk_of_mem hmem
    refine .inr ⟨htype, ?_, hname⟩
    by_cases hbits : (f.headerAt i).typeCode = 8
    · exact .inl ((SectionHeader.type?_eq_some_iff (by decide)).mpr hbits)
    · exact .inr (sections _ hmem hbits)

theorem HasSymbols.readsAlike {symtab strtab : SectionHeader} (symbols : f.HasSymbols symtab strtab)
    (ok : f.TableOk) (hheader : g.header = f.header)
    (hsame : ∀ i, f.Metadata i → g.bytes[i]? = f.bytes[i]?)
    (hin : ∀ s ∈ f.namedHeaders, s.typeCode ≠ 8 → HasRange g.bytes s.offset s.size) :
    f.ReadsAlike g := by
  have htable : SameRange f.bytes g.bytes f.header.tableOffset
      (f.header.sectionCount * sectionHeaderSize) :=
    fun i lower upper => hsame i (.table lower upper)
  have hnames : SameRange f.bytes g.bytes f.nameTable.offset f.nameTable.size :=
    fun i lower upper => hsame i (.sectionNames lower upper)
  have hsize : 0 < f.header.sectionCount * sectionHeaderSize :=
    Nat.mul_pos (Nat.pos_of_ne_zero ok.nonempty) (by decide)
  have inFile := htable.hasRange ok.inFile hsize
  have names := hnames.hasRange ok.names (ok.nameTable_size_pos symbols.symtabFirst.mem)
  refine
    { header := hheader
      table := (ok.toHasTable.sameTable hheader htable).tableOk ok inFile names hnames hin
      bytes := fun i hi => hsame i (ok.metadata_of_reads hi)
      strtab := fun s hs => ?_ }
  obtain rfl := hs.unique symbols.strtabFirst
  have hother := hin s hs.mem (by rw [symbols.strtabType]; decide)
  exact iff_of_true hother symbols.strtabInFile

end File

end Elf

namespace Audit

open Elf

variable {bytes : ByteArray} {board : Board} {r : Audit}

theorem exists_hasSymbols_of_ofImage_eq_ok (h : ofImage bytes board = .ok r) :
    FileHeader.Decodes bytes (File.of64 bytes).header ∧ (File.of64 bytes).TableOk ∧
      ∃ symtab strtab, (File.of64 bytes).HasSymbols symtab strtab := by
  obtain ⟨f, sections, found, rfl, hd, ok, hk, hs, hl, -⟩ := ofImage_eq_ok_iff.mp h
  obtain ⟨-, hf⟩ := eq_of64_of_symbols hd ok hk hs
  obtain ⟨symtab, strtab, symbols, -⟩ := hasSymbols_of_symbols ok hk hs hl
  rw [← hf]
  exact ⟨hd, ok, symtab, strtab, symbols⟩

theorem ofImage_eq_ok_of_metadata (h : ofImage bytes board = .ok r) {other : ByteArray}
    (hsame : ∀ i, (File.of64 bytes).Metadata i → other[i]? = bytes[i]?)
    (hin : ∀ s ∈ (File.of64 bytes).namedHeaders, s.typeCode ≠ 8 →
      HasRange other s.offset s.size) : ofImage other board = .ok r := by
  obtain ⟨hd, ok, symtab, strtab, symbols⟩ := exists_hasSymbols_of_ofImage_eq_ok h
  have alike : (File.of64 bytes).ReadsAlike ⟨other, (File.of64 bytes).header⟩ :=
    symbols.readsAlike ok rfl hsame hin
  exact (ofImage_congr hd ok alike board).trans h

/--
An accepting audit does not change as long as the metadata stay and the sections still end within
the image. So bytes may be added at the end, and code and data may change.
-/
theorem ofImage_unchanged (h : ofImage bytes board = .ok r) :
    (∀ other : ByteArray, (∀ i, (File.of64 bytes).Metadata i → other[i]? = bytes[i]?) →
      (∀ s ∈ (File.of64 bytes).namedHeaders, s.typeCode ≠ 8 → HasRange other s.offset s.size) →
        ofImage other board = .ok r) ∧
    (∀ suffix, ofImage (bytes ++ suffix) board = .ok r) ∧
    (∀ other : ByteArray, other.size = bytes.size →
      (∀ i, other[i]? ≠ bytes[i]? → ¬ (File.of64 bytes).Metadata i) →
        ofImage other board = .ok r) := by
  obtain ⟨hd, ok, symtab, strtab, symbols⟩ := exists_hasSymbols_of_ofImage_eq_ok h
  refine ⟨fun other => ofImage_eq_ok_of_metadata h, fun suffix => ?_, fun other hsize hdiff => ?_⟩
  · refine ofImage_eq_ok_of_metadata h (fun i hi => ?_) fun s hs hbits => ?_
    · have hlt : i < bytes.size :=
        symbols.lt_size_of_metadata ok.toHasTable ⟨rfl, fun _ _ => rfl⟩ hd.room ok hi
      exact SameRange.of_append bytes suffix i (Nat.zero_le i) (by rw [Nat.zero_add]; exact hlt)
    · have hrange : HasRange bytes s.offset s.size := ok.hasRange_of_mem hs hbits
      unfold HasRange at *
      rw [ByteArray.size_append]
      omega
  · refine ofImage_eq_ok_of_metadata h (fun i hi => ?_) fun s hs hbits => ?_
    · by_contra hne
      exact hdiff i hne hi
    · have hrange : HasRange bytes s.offset s.size := ok.hasRange_of_mem hs hbits
      unfold HasRange at *
      omega

theorem unchanged_smallImage :
    ofImage smallImage.encode .qemu = .ok smallAudit ∧
      ofImage (smallImage.encode ++ ⟨#[1, 2, 3]⟩) .qemu = .ok smallAudit :=
  ⟨ofImage_smallImage, (ofImage_unchanged ofImage_smallImage).2.1 _⟩

/-! ## Images that are cut short -/

/--
The first bytes of an accepted image are accepted with the same report, or they are reported as
malformed.
-/
theorem ofImage_extract (h : ofImage bytes board = .ok r) (n : Nat) :
    ofImage (bytes.extract 0 n) board = .ok r ∨
      ∃ m : Malformed, ofImage (bytes.extract 0 n) board = reject m := by
  obtain ⟨hd, ok, symtab, strtab, symbols⟩ := exists_hasSymbols_of_ofImage_eq_ok h
  rcases Nat.lt_or_ge n bytes.size with hn | hn
  case inr =>
    have hwhole : bytes.extract 0 n = bytes := by
      apply ByteArray.ext_getElem
      · rw [ByteArray.size_extract]
        omega
      · intro i _ _
        simp only [ByteArray.getElem_extract, Nat.zero_add]
    exact .inl (by rw [hwhole, h])
  have hsize : (bytes.extract 0 n).size = n := by rw [ByteArray.size_extract]; omega
  rcases Nat.lt_or_ge n fileHeaderSize with hshort | hroom
  · exact .inr ⟨_, ofImage_of_size_lt (by omega) board⟩
  have hroom' : fileHeaderSize ≤ (bytes.extract 0 n).size := by omega
  have hsame : SameRange bytes (bytes.extract 0 n) 0 n := .of_extract (by omega)
  have hd' : FileHeader.Decodes (bytes.extract 0 n) (File.of64 bytes).header :=
    hd.congr (hsame.part (by unfold fileHeaderSize at hroom; omega : 0 + 64 ≤ n))
  by_cases ok' : (⟨bytes.extract 0 n, (File.of64 bytes).header⟩ : File).TableOk
  · -- Everything that the sound table refers to is left, so all metadata are.
    have hbefore (i : Nat) (hi : i < (bytes.extract 0 n).size) :
        (bytes.extract 0 n)[i]? = bytes[i]? := hsame i (Nat.zero_le i) (by omega)
    have table : (File.of64 bytes).SameTable ⟨bytes.extract 0 n, (File.of64 bytes).header⟩ :=
      ok.toHasTable.sameTable rfl fun i _ upper =>
        hbefore i (Nat.lt_of_lt_of_le upper ok'.inFile)
    refine .inl (ofImage_eq_ok_of_metadata h (fun i hi => hbefore i ?_) fun s hs hbits => ?_)
    · exact symbols.lt_size_of_metadata ok.toHasTable table hroom' ok' hi
    · exact table.hasRange_of_mem ok.toHasTable ok' hs hbits
  · exact .inr (exists_ofImage_eq_reject hd' ok' (fun _ => ⟨ok.aligned, ok.few⟩) board)

theorem extract_smallImage :
    ofImage smallImage.encode .qemu = .ok smallAudit ∧
      (ofImage (smallImage.encode.extract 0 100) .qemu = .ok smallAudit ∨
        ∃ m : Malformed, ofImage (smallImage.encode.extract 0 100) .qemu = reject m) :=
  ⟨ofImage_smallImage, ofImage_extract ofImage_smallImage 100⟩

end Audit

end KernelImage
