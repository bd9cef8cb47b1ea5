import KernelImage.Proofs.Audit.Basic
import KernelImage.Proofs.Elf.Encode

/-!
# What is read from a written image

The readers find in an encoded image the header, the section headers, the names and the symbols that
were written.
-/

namespace KernelImage.Elf

/-- The numbers of a row fit into their fields. -/
structure Row.Fits (r : Row) : Prop where
  typeCode : r.typeCode < 2 ^ 32
  flags : r.flags < 2 ^ 64
  offset : r.offset < 2 ^ 64
  size : r.size < 2 ^ 64

theorem Row.of64_eq_header {bytes : ByteArray} {start nameOffset : Nat} {r : Row}
    (h : Holds bytes start (r.bytes nameOffset)) (hn : nameOffset < 2 ^ 32) (hr : r.Fits) :
    SectionHeader.of64 bytes start = r.header nameOffset := by
  simp only [Row.bytes, holds_append_iff, List.length_append, length_numberBytes, Nat.reduceAdd] at h
  obtain ⟨⟨⟨⟨⟨⟨⟨⟨⟨hname, htype⟩, hflags⟩, haddress⟩, hoffset⟩, hsize⟩, -⟩, -⟩, -⟩, -⟩ := h
  rw [SectionHeader.of64, hname.littleEndian_eq hn, htype.littleEndian_eq hr.typeCode,
    hflags.littleEndian_eq hr.flags, haddress.littleEndian_eq r.address.toNat_lt,
    hoffset.littleEndian_eq hr.offset, hsize.littleEndian_eq hr.size, Address.ofNat_toNat]
  rfl

theorem SymbolEntry.of_eq {bytes : ByteArray} {start nameOffset : Nat} {s : NamedSymbol}
    (h : Holds bytes start (entryBytes nameOffset s)) (hn : nameOffset < 2 ^ 32) :
    SymbolEntry.of bytes start = ⟨nameOffset, 0xfff1, s.value⟩ := by
  simp only [entryBytes, holds_append_iff, List.length_append, length_numberBytes, List.length_cons,
    List.length_nil, Nat.reduceAdd] at h
  obtain ⟨⟨⟨⟨hname, -⟩, hindex⟩, hvalue⟩, -⟩ := h
  rw [SymbolEntry.of, hname.littleEndian_eq hn, hindex.littleEndian_eq (by decide),
    hvalue.littleEndian_eq s.value.toNat_lt, Address.ofNat_toNat]

theorem SymbolEntry.of_zero {bytes : ByteArray} {start : Nat}
    (h : Holds bytes start (List.replicate 24 0)) : SymbolEntry.of bytes start = ⟨0, 0, ⟨0⟩⟩ := by
  have hname := h.littleEndian_zero (by decide : 0 + 4 ≤ 24)
  have hindex := h.littleEndian_zero (by decide : 6 + 2 ≤ 24)
  have hvalue := h.littleEndian_zero (by decide : 8 + 8 ≤ 24)
  rw [Nat.add_zero] at hname
  rw [SymbolEntry.of, hname, hindex, hvalue]
  rfl

namespace Image

variable {image : Image}

/-! ## The header -/

theorem tableOffset_lt (h : image.Encodable) : image.tableOffset < 2 ^ 64 := by
  have hrange := image.placed.table.hasRange
  unfold HasRange at hrange
  exact Nat.lt_of_le_of_lt (by omega) h.length

def file (image : Image) : File := .of64 image.encode

theorem header_eq (h : image.Encodable) :
    image.file.header =
      ⟨.bits64, image.entry, image.tableOffset, 64, image.headerCount, image.headerCount - 1⟩ := by
  have hfew : image.headerCount ≤ 0xff00 := h.few
  have hheader := image.placed.header
  simp only [header, holds_append_iff, List.length_append, length_numberBytes, List.length_cons,
    List.length_nil, List.length_replicate, Nat.reduceAdd] at hheader
  obtain ⟨⟨⟨⟨⟨⟨⟨⟨⟨⟨-, hentry⟩, -⟩, htable⟩, -⟩, -⟩, -⟩, -⟩, hstride⟩, hcount⟩, hindex⟩ := hheader
  change FileHeader.of64 image.encode = _
  rw [FileHeader.of64, hentry.littleEndian_eq image.entry.toNat_lt,
    htable.littleEndian_eq (tableOffset_lt h), hstride.littleEndian_eq (by decide),
    hcount.littleEndian_eq (by omega), hindex.littleEndian_eq (by omega), Address.ofNat_toNat]

theorem decodes (image : Image) : FileHeader.Decodes image.encode image.file.header := by
  have hheader := image.placed.header
  have hroom := hheader.hasRange
  rw [length_header] at hroom
  have hstart : [0x7f, 0x45, 0x4c, 0x46, 2, 1, 1, 0] =
      numberBytes 4 FileHeader.magic ++ (numberBytes 1 2 ++ [1, 1, 0]) := by decide
  simp only [header, hstart, holds_append_iff, length_numberBytes] at hheader
  obtain ⟨⟨⟨⟨⟨⟨⟨⟨⟨⟨⟨⟨⟨⟨⟨hmagic, hclass, -⟩, -⟩, -⟩, -⟩, -⟩, -⟩, -⟩, -⟩, -⟩, -⟩, -⟩, -⟩, -⟩, -⟩, -⟩ :=
    hheader
  have hbyte := hclass.littleEndian_eq (by decide)
  rw [littleEndian_one] at hbyte
  refine ⟨?_, hmagic.littleEndian_eq (by decide), .inr ⟨hbyte, rfl⟩⟩
  unfold HasRange at hroom
  omega

/-! ## The section headers -/

/-- The row has a known type, and the bytes it speaks of are in the file. -/
structure SoundRow (image : Image) (r : Row) : Prop extends r.Fits where
  known : r.typeCode ∈ [1, 2, 3, 8]
  inFile : r.typeCode = 8 ∨ HasRange image.encode r.offset r.size

theorem soundRow_of_holds {r : Row} {piece : List UInt8} (h : image.Encodable)
    (hpiece : Holds image.encode r.offset piece) (hsize : r.size = piece.length)
    (hflags : r.flags < 2 ^ 64) (hknown : r.typeCode ∈ [1, 2, 3, 8]) : image.SoundRow r := by
  have hrange := hpiece.hasRange
  have hlength := h.length
  rw [← hsize] at hrange
  have htype : r.typeCode < 2 ^ 32 := by
    simp only [List.mem_cons, List.not_mem_nil, or_false] at hknown
    omega
  unfold HasRange at hrange
  exact ⟨⟨htype, hflags, by omega, by omega⟩, hknown, .inr hrange⟩

theorem soundRow_of_section (h : image.Encodable) {s : ImageSection} {offset : Nat}
    (hs : Holds image.encode offset s.contents) : image.SoundRow (s.row offset) := by
  rcases hbits : s.noBits with _ | _
  · have hrow : (s.row offset).offset = offset := by simp [ImageSection.row, hbits]
    apply soundRow_of_holds h (hrow ▸ hs)
    · simp [ImageSection.row, ImageSection.contents, hbits]
    · exact s.flags.toNat_lt
    · simp [ImageSection.row, hbits]
  · have htype : (s.row offset).typeCode = 8 := by simp [ImageSection.row, hbits]
    have hoffset : (s.row offset).offset = 0 := by simp [ImageSection.row, hbits]
    refine ⟨⟨?_, s.flags.toNat_lt, ?_, s.size.toNat_lt⟩, ?_, .inl htype⟩
    · rw [htype]; decide
    · rw [hoffset]; decide
    · rw [htype]; decide

theorem soundRow_of_mem (h : image.Encodable) {r : Row} (hr : r ∈ image.rows) :
    image.SoundRow r := by
  rw [rows, List.mem_append] at hr
  rcases hr with hr | hr
  · obtain ⟨i, hi, rfl⟩ := List.getElem_of_mem hr
    have hi' : i < image.contents.length := by simpa [contents] using hi
    have hpiece := image.placed.contents.pieces hi' (by simpa using hi')
    rw [List.getElem_zipWith]
    apply soundRow_of_section h
    simpa only [contents, List.getElem_map] using hpiece
  · simp only [List.mem_cons, List.not_mem_nil, or_false] at hr
    rcases hr with rfl | rfl | rfl
    · exact soundRow_of_holds h image.placed.symtab rfl (by simp [symtabRow]) (by simp [symtabRow])
    · exact soundRow_of_holds h image.placed.strtab rfl (by simp [nameRow]) (by simp [nameRow])
    · exact soundRow_of_holds h image.placed.shstrtab rfl (by simp [nameRow]) (by simp [nameRow])

def placedHeader (p : Nat × Row) : SectionHeader := p.2.header p.1

theorem nameOffset_lt_of_mem (h : image.Encodable) {p : Nat × Row} (hp : p ∈ image.placedRows) :
    p.1 < 2 ^ 32 := h.sectionNameOffsets _ (List.of_mem_zip hp).1

theorem headerAt_eq (h : image.Encodable) (i : Nat) :
    image.file.headerAt i = SectionHeader.of64 image.encode (image.tableOffset + i * 64) := by
  have hoffset : image.file.sectionOffset i = image.tableOffset + i * 64 := by
    rw [File.sectionOffset, header_eq h]
  rw [← hoffset]
  exact File.headerAt_of64 _ _

theorem holds_rowBytes {i : Nat} (hi : i < image.rowBytes.length) :
    Holds image.encode (image.tableOffset + (i + 1) * 64) image.rowBytes[i] := by
  have htable := image.placed.table
  rw [table, holds_append_iff, List.length_replicate] at htable
  have ho : i < (offsetsFrom (image.tableOffset + 64) image.rowBytes).length := by
    rw [length_offsetsFrom]
    exact hi
  have hrow := htable.2.pieces hi ho
  rw [getElem_offsetsFrom fun p hp => length_of_mem_rowBytes hp] at hrow
  rwa [Nat.succ_mul, Nat.add_comm (i * 64), ← Nat.add_assoc]

theorem headerAt_succ (h : image.Encodable) {i : Nat} (hi : i < image.placedRows.length) :
    image.file.headerAt (i + 1) = placedHeader image.placedRows[i] := by
  have hmem := List.getElem_mem hi
  have hrow := holds_rowBytes (i := i) (by simpa using hi)
  simp only [rowBytes, List.getElem_map] at hrow
  rw [headerAt_eq h]
  exact Row.of64_eq_header hrow (nameOffset_lt_of_mem h hmem)
    (soundRow_of_mem h (List.of_mem_zip hmem).2).toFits

theorem headerAt_zero (h : image.Encodable) : (image.file.headerAt 0).typeCode = 0 := by
  have htable := image.placed.table
  rw [table, holds_append_iff] at htable
  rw [headerAt_eq h, Nat.zero_mul, Nat.add_zero]
  exact htable.1.littleEndian_zero (by decide : 4 + 4 ≤ 64)

theorem namedHeaders_eq (h : image.Encodable) :
    image.file.namedHeaders = image.placedRows.map placedHeader := by
  have hcount : image.file.header.sectionCount = image.placedRows.length + 1 := by
    rw [header_eq h, length_placedRows]
    rfl
  have hrest : (List.range image.placedRows.length).map (image.file.headerAt ∘ Nat.succ) =
      image.placedRows.map placedHeader := by
    apply List.ext_getElem
    · simp
    · intro i hi _
      simp only [List.getElem_map, List.getElem_range, Function.comp_apply]
      exact headerAt_succ h (by simpa using hi)
  rw [File.namedHeaders, hcount, List.range_succ_eq_map, List.map_cons, List.map_map, hrest,
    List.filter_cons_of_neg (by simp [headerAt_zero h]), List.filter_eq_self]
  intro s hs
  obtain ⟨p, hp, rfl⟩ := List.mem_map.mp hs
  have hknown := (soundRow_of_mem h (List.of_mem_zip hp).2).known
  rw [decide_eq_true_eq]
  intro hzero
  change p.2.typeCode = 0 at hzero
  rw [hzero] at hknown
  exact absurd hknown (by decide)

/-! ## The names -/

theorem getElem_rows_symtab (hi : image.sections.length < image.rows.length) :
    image.rows[image.sections.length] = image.symtabRow := by
  simp [rows, contents]

theorem getElem_rows_strtab (hi : image.sections.length + 1 < image.rows.length) :
    image.rows[image.sections.length + 1] =
      nameRow ".strtab" image.strtabOffset image.strtab.length := by
  simp [rows, contents, List.getElem_append_right]

theorem getElem_rows_shstrtab (hi : image.sections.length + 2 < image.rows.length) :
    image.rows[image.sections.length + 2] =
      nameRow ".shstrtab" image.shstrtabOffset image.shstrtab.length := by
  simp [rows, contents, List.getElem_append_right]

theorem nameTable_eq (h : image.Encodable) :
    image.file.nameTable.offset = image.shstrtabOffset ∧
      image.file.nameTable.size = image.shstrtab.length := by
  have hi : image.sections.length + 2 < image.placedRows.length := by simp
  have hindex : image.file.header.nameTableIndex = image.sections.length + 2 + 1 := by
    rw [header_eq h]
    rfl
  rw [File.nameTable, hindex, headerAt_succ h hi]
  simp only [placedHeader, placedRows, List.getElem_zip, getElem_rows_shstrtab, Row.header, nameRow,
    and_self]

theorem names_eq_shstrtab (h : image.Encodable) :
    image.file.names = image.shstrtab.toByteArray := by
  obtain ⟨hoffset, hsize⟩ := nameTable_eq h
  rw [File.names, hoffset, hsize]
  exact image.placed.shstrtab.extract_eq

theorem nulFree_of_mem_names (h : image.Encodable) {name : String} (hn : name ∈ image.names) :
    NulFree name := by
  rw [names, List.mem_append, List.mem_map] at hn
  rcases hn with ⟨s, hs, rfl⟩ | hn
  · exact (h.sectionNames s hs).1
  · simp only [List.mem_cons, List.not_mem_nil, or_false] at hn
    rcases hn with rfl | rfl | rfl <;> decide

theorem hasName (h : image.Encodable) {p : Nat × Row} (hp : p ∈ image.placedRows) :
    image.file.HasName (placedHeader p) p.2.name := by
  obtain ⟨i, hi, rfl⟩ := List.getElem_of_mem hp
  have hi' : i < (image.names.map closedText).length := by simpa using hi
  have hpiece := holds_nameTable hi' (by simpa using hi')
  have hname : (image.names.map closedText)[i] = closedText image.placedRows[i].2.name := by
    simp only [placedRows, List.getElem_zip, List.getElem_map, ← names_eq]
  have ho : i < image.nameOffsets.length := by simpa using hi
  have hoffset : image.placedRows[i].1 = image.nameOffsets[i] := by
    simp only [placedRows, List.getElem_zip]
  rw [hname] at hpiece
  rw [File.HasName, names_eq_shstrtab h]
  change HasText _ image.placedRows[i].1 _
  rw [hoffset]
  refine hpiece.hasText (nulFree_of_mem_names h ?_)
  rw [← names_eq]
  exact List.mem_map_of_mem (List.of_mem_zip hp).2

/-! ## The table -/

theorem sectionOk (h : image.Encodable) {p : Nat × Row} (hp : p ∈ image.placedRows) :
    image.file.SectionOk (placedHeader p) := by
  obtain ⟨-, hknown, hin⟩ := soundRow_of_mem h (List.of_mem_zip hp).2
  have htype : (placedHeader p).type? = SectionType.ofCode? p.2.typeCode := rfl
  refine .inr ⟨?_, ?_, (hasName h hp).terminated⟩
  · simp only [List.mem_cons, List.not_mem_nil, or_false] at hknown
    rcases hknown with hcode | hcode | hcode | hcode <;> rw [htype, hcode] <;> rfl
  · refine hin.imp_left fun hcode => ?_
    rw [htype, hcode]
    rfl

theorem tableOk (h : image.Encodable) : image.file.TableOk := by
  have hcount : image.file.header.sectionCount = image.sections.length + 4 := by
    rw [header_eq h]
    rfl
  obtain ⟨hoffset, hsize⟩ := nameTable_eq h
  refine
    { nonempty := ?_
      stride := ?_
      inFile := ?_
      nameTable := ?_
      aligned := ?_
      few := ?_
      names := ?_
      sections := ?_ }
  · omega
  · rw [header_eq h]
    rfl
  · have hlast : image.sections.length + 2 < image.rowBytes.length := by simp
    have hrange := (holds_rowBytes hlast).hasRange
    rw [length_of_mem_rowBytes (List.getElem_mem hlast)] at hrange
    have htable : image.file.header.tableOffset = image.tableOffset := by rw [header_eq h]
    rw [hcount, htable]
    unfold HasRange sectionHeaderSize at *
    change _ ≤ image.encode.size
    omega
  · rw [header_eq h]
    unfold headerCount
    simp
  · have htable : image.file.header.tableOffset = image.tableOffset := by rw [header_eq h]
    have halign : image.file.sectionAlignment = 8 := by rw [File.sectionAlignment, header_eq h]
    rw [File.TableAligned, htable, halign]
    exact add_padding_mod _
  · have hfew := h.few
    rw [hcount]
    exact hfew
  · rw [File.NamesInFile, hoffset, hsize]
    exact image.placed.shstrtab.hasRange
  · intro i hi
    cases i with
    | zero => exact .inl ((SectionHeader.type?_eq_some_iff (by decide)).mpr (headerAt_zero h))
    | succ i =>
      have hi' : i < image.placedRows.length := by rw [length_placedRows]; omega
      rw [headerAt_succ h hi']
      exact sectionOk h (List.getElem_mem hi')

/-! ## The sections -/

/-- The sections as they are kept, if none is forbidden. -/
def kept (image : Image) : List Section :=
  image.placedRows.map fun p => ⟨p.2.name, placedHeader p⟩

/-- The start of a forbidden name, for the first section that has one. -/
def forbidden? (image : Image) : Option String :=
  image.sections.findSome? fun s =>
    [".eh_frame", ".debug", ".comment"].find? fun start => start.toList <+: s.name.toList

theorem keep_eq (h : image.Encodable) {p : Nat × Row} (hp : p ∈ image.placedRows) :
    image.file.keep (placedHeader p) =
      ((forbiddenStart? p.2.name).map fun start => .defect (.forbiddenSection start)).elim
        (.ok ⟨p.2.name, placedHeader p⟩) .error := by
  have hmem : placedHeader p ∈ image.file.namedHeaders := by
    rw [namedHeaders_eq h]
    exact List.mem_map_of_mem hp
  have hname := stringAt_eq_ok_iff.mpr (((tableOk h).hasName_iff hmem).mpr (hasName h hp))
  rw [File.keep, hname, ok_bind]
  rcases forbiddenStart? p.2.name with _ | start <;> rfl

theorem findSome?_placedRows :
    image.placedRows.findSome? (fun p => forbiddenStart? p.2.name) = image.forbidden? := by
  have hnames : image.placedRows.map (fun p => p.2.name) = image.names := by
    have hsnd : image.placedRows.map Prod.snd = image.rows := List.map_snd_zip (by simp)
    rw [← names_eq, ← hsnd, List.map_map]
    rfl
  have hadded : [".symtab", ".strtab", ".shstrtab"].findSome? forbiddenStart? = none := by decide
  calc image.placedRows.findSome? (fun p => forbiddenStart? p.2.name)
      = image.names.findSome? forbiddenStart? := by
        rw [← hnames, List.findSome?_map]
        rfl
    _ = (image.sections.map ImageSection.name).findSome? forbiddenStart? := by
        rw [names, List.findSome?_append, hadded, Option.or_none]
    _ = image.forbidden? := by
        rw [List.findSome?_map]
        simp only [forbidden?, ← forbiddenStart?_eq_find?]
        rfl

theorem keptSections_eq (h : image.Encodable) :
    image.file.keptSections image.file.table =
      (image.forbidden?.map fun start => .defect (.forbiddenSection start)).elim
        (.ok image.kept) .error := by
  rw [File.keptSections_eq, namedHeaders_eq h, List.mapM_map, Function.comp_def,
    mapM_eq_findSome? fun p hp => keep_eq h hp, ← findSome?_placedRows, List.map_findSome?,
    Function.comp_def, kept]

/-! ## The symbols -/

theorem findSection?_kept {i : Nat} (hi : i < image.placedRows.length)
    (hn : i < image.names.length) (hfirst : ∀ j, (hj : j < i) → image.names[j] ≠ image.names[i]) :
    findSection? image.kept image.names[i] = some (placedHeader image.placedRows[i]) := by
  have hname (j : Nat) (hj : j < image.kept.length) (hj' : j < image.names.length) :
      image.kept[j].name = image.names[j] := by
    simp only [kept, placedRows, List.getElem_map, List.getElem_zip, ← names_eq]
  have hi' : i < image.kept.length := by simpa [kept] using hi
  rw [findSection?_eq_some_iff]
  refine ⟨i, hi', hname i hi' hn, by simp only [kept, List.getElem_map], fun j hj => ?_⟩
  rw [hname j (by omega) (by omega)]
  exact hfirst j hj

theorem getElem_names_section (h : image.Encodable) {j : Nat} (hj : j < image.sections.length)
    (hn : j < image.names.length) :
    image.names[j] ≠ ".symtab" ∧ image.names[j] ≠ ".strtab" := by
  have hname : image.names[j] = image.sections[j].name := by
    simp only [names]
    rw [List.getElem_append_left (by simpa using hj), List.getElem_map]
  rw [hname]
  exact (h.sectionNames _ (List.getElem_mem hj)).2

theorem findSection?_symtab (h : image.Encodable) :
    ∃ offset, findSection? image.kept ".symtab" = some (image.symtabRow.header offset) := by
  have hi : image.sections.length < image.placedRows.length := by simp
  have hn : image.sections.length < image.names.length := by simp
  have hname : image.names[image.sections.length] = ".symtab" := by simp [names]
  have hfind := findSection?_kept hi hn fun j hj => by
    rw [hname]
    exact (getElem_names_section h hj _).1
  rw [hname] at hfind
  refine ⟨image.placedRows[image.sections.length].1, ?_⟩
  rw [hfind, placedHeader]
  simp only [placedRows, List.getElem_zip, getElem_rows_symtab]

theorem findSection?_strtab (h : image.Encodable) :
    ∃ offset, findSection? image.kept ".strtab" =
      some ((nameRow ".strtab" image.strtabOffset image.strtab.length).header offset) := by
  have hi : image.sections.length + 1 < image.placedRows.length := by simp
  have hn : image.sections.length + 1 < image.names.length := by simp
  have hname : image.names[image.sections.length + 1] = ".strtab" := by
    simp [names, List.getElem_append_right]
  have hsymtab : image.names[image.sections.length] = ".symtab" := by simp [names]
  have hfind := findSection?_kept hi hn fun j hj => by
    rw [hname]
    rcases Nat.lt_succ_iff_lt_or_eq.mp hj with hj | rfl
    · exact (getElem_names_section h hj _).2
    · rw [hsymtab]
      decide
  rw [hname] at hfind
  refine ⟨image.placedRows[image.sections.length + 1].1, ?_⟩
  rw [hfind, placedHeader]
  simp only [placedRows, List.getElem_zip, getElem_rows_strtab]

theorem symbolNames_eq (h : image.Encodable) :
    image.file.symbolNames image.kept = .ok image.strtab.toByteArray := by
  obtain ⟨offset, hfind⟩ := findSection?_strtab h
  have hstrtab := image.placed.strtab
  refine File.symbolNames_eq_ok_iff.mpr (.inr ⟨_, hfind, hstrtab.hasRange, ?_⟩)
  rw [if_pos ((SectionHeader.type?_eq_some_iff (by decide)).mpr rfl)]
  exact hstrtab.extract_eq.symm

/-- The entries that are read: one without a name, then one for each symbol. -/
def readSymbols (image : Image) : List NamedSymbol := ⟨"", ⟨0⟩⟩ :: image.symbols

theorem holds_entries {i : Nat} (hi : i < image.entries.length) :
    Holds image.encode (image.symtabOffset + (i + 1) * 24) image.entries[i] := by
  have hsymtab := image.placed.symtab
  rw [symtab, holds_append_iff, List.length_replicate] at hsymtab
  have ho : i < (offsetsFrom (image.symtabOffset + 24) image.entries).length := by
    rw [length_offsetsFrom]
    exact hi
  have hentry := hsymtab.2.pieces hi ho
  rw [getElem_offsetsFrom fun p hp => length_of_mem_entries hp] at hentry
  rwa [Nat.succ_mul, Nat.add_comm (i * 24), ← Nat.add_assoc]

theorem named_zero {offset : Nat} :
    SymbolEntry.Named image.strtab.toByteArray (image.file.entryAt (image.symtabRow.header offset) 0)
      (some ⟨"", ⟨0⟩⟩) := by
  have hsymtab := image.placed.symtab
  rw [symtab, holds_append_iff] at hsymtab
  have hzero : image.file.entryAt (image.symtabRow.header offset) 0 = ⟨0, 0, ⟨0⟩⟩ := by
    rw [File.entryAt, Nat.zero_mul, Nat.add_zero]
    exact SymbolEntry.of_zero hsymtab.1
  have hstrtab : Holds image.strtab.toByteArray 0 (closedText "" ++ image.symbolNames.flatten) :=
    holds_toByteArray image.strtab
  have hname := (holds_append_iff.mp hstrtab).1.hasText (by decide)
  rw [hzero]
  exact ⟨hname, rfl⟩

theorem named_succ (h : image.Encodable) {offset i : Nat} (hi : i < image.symbols.length) :
    SymbolEntry.Named image.strtab.toByteArray
      (image.file.entryAt (image.symtabRow.header offset) (i + 1)) (some image.symbols[i]) := by
  have hi' : i < image.symbolNames.length := by simpa [symbolNames] using hi
  have ho : i < (offsetsFrom 1 image.symbolNames).length := by
    rw [length_offsetsFrom]
    exact hi'
  have hentry := holds_entries (i := i) (by simpa using hi)
  simp only [entries, List.getElem_zipWith] at hentry
  have hread := SymbolEntry.of_eq hentry (h.symbolNameOffsets _ (List.getElem_mem ho))
  have hname := holds_nameTable hi' ho
  simp only [symbolNames, List.getElem_map] at hname
  change SymbolEntry.Named _ (SymbolEntry.of image.encode (image.symtabOffset + (i + 1) * 24)) _
  rw [hread]
  exact ⟨hname.hasText (h.symbolNames _ (List.getElem_mem hi)), rfl⟩

theorem forall₂_named (h : image.Encodable) (offset : Nat) :
    List.Forall₂ (SymbolEntry.Named image.strtab.toByteArray)
      ((List.range (image.symbols.length + 1)).map
        (image.file.entryAt (image.symtabRow.header offset)))
      (image.readSymbols.map some) := by
  rw [List.range_succ_eq_map, List.map_cons, List.map_map, readSymbols, List.map_cons]
  refine .cons named_zero ?_
  rw [List.forall₂_iff_get]
  refine ⟨by simp, fun i hi hi' => ?_⟩
  simp only [List.get_eq_getElem, List.getElem_map, List.getElem_range, Function.comp_apply]
  exact named_succ h (by simpa using hi)

theorem symbols_eq (h : image.Encodable) :
    image.file.symbols image.kept = .ok image.readSymbols := by
  obtain ⟨offset, hfind⟩ := findSection?_symtab h
  have hsize : (image.symtabRow.header offset).size = (image.symbols.length + 1) * 24 :=
    length_symtab
  have hrange (table : SectionHeader) (ht : findSection? image.kept ".symtab" = some table) :
      HasRange image.file.bytes table.offset table.size := by
    rw [hfind, Option.some.injEq] at ht
    rw [← ht]
    exact image.placed.symtab.hasRange
  have hoffset : (image.symtabRow.header offset).offset % 8 = 0 := add_padding_mod _
  rw [File.symbols_eq_ok_iff fun table ht _ => hrange table ht]
  refine ⟨_, _, image.readSymbols.map some, hfind, ?_, hoffset, symbolNames_eq h, ?_, ?_, ?_, ?_⟩
  · rw [hsize]
    exact Nat.mul_mod_left _ _
  · rw [header_eq h]
  · exact (SectionHeader.type?_eq_some_iff (by decide)).mpr rfl
  · rw [hsize, symbolEntrySize, Nat.mul_div_cancel _ (by decide)]
    exact forall₂_named h offset
  · simp

end Image

end KernelImage.Elf
