import KernelImage.Proofs.Audit.Entries
import KernelImage.Proofs.Audit.Metadata

/-!
# Files that differ in their symbol table

An audit reads the section of the symbol table only for its entries. If no other range that it reads
meets this section, two files that differ in it are judged alike as soon as the same layout is read
from both tables.
-/

namespace KernelImage

namespace Elf.File

variable {f g : File} {sections : List Section} {symtab : SectionHeader}

/-- Byte `i` lies in a range, other than that of the symbol table, that an audit reads. -/
inductive ReadsBeside (f : File) (i : Nat) : Prop where
  | header (upper : i < fileHeaderSize)
  | table (lower : f.header.tableOffset ≤ i)
      (upper : i < f.header.tableOffset + f.header.sectionCount * sectionHeaderSize)
  | sectionNames (lower : f.nameTable.offset ≤ i)
      (upper : i < f.nameTable.offset + f.nameTable.size)
  | symbolNames {s : SectionHeader} (first : f.FirstNamed ".strtab" s) (lower : s.offset ≤ i)
      (upper : i < s.offset + s.size)

/-- The symbol table is that of a 64-bit file, and none of its bytes is read for another purpose. -/
structure OwnSymtab (f : File) (symtab : SectionHeader) : Prop where
  class64 : f.header.fileClass = .bits64
  first : f.FirstNamed ".symtab" symtab
  symtabType : symtab.typeCode = 2
  secluded : ∀ i, symtab.offset ≤ i → i < symtab.offset + symtab.size → ¬ f.ReadsBeside i

/-- The files are of one size, and the same stands wherever more than symbol entries are read. -/
structure AlikeBeside (f g : File) : Prop where
  header : g.header = f.header
  size : g.bytes.size = f.bytes.size
  bytes : ∀ i, f.ReadsBeside i → g.bytes[i]? = f.bytes[i]?

namespace AlikeBeside

theorem hasRange_iff (h : f.AlikeBeside g) (offset size : Nat) :
    HasRange g.bytes offset size ↔ HasRange f.bytes offset size := by
  unfold HasRange
  rw [h.size]

theorem range_eq (h : f.AlikeBeside g) {offset size : Nat}
    (hsame : SameRange f.bytes g.bytes offset size) : g.range offset size = f.range offset size := by
  unfold range
  simp only [h.hasRange_iff]
  refine bind_congr_of_ok fun _ hrange => ?_
  have hin : HasRange f.bytes offset size := require_eq_ok_iff.mp hrange
  rw [extract_congr hin ((h.hasRange_iff _ _).mpr hin) hsame]

theorem checkSection_eq (h : f.AlikeBeside g) (names : ByteArray) (s : SectionHeader) :
    g.checkSection names s = f.checkSection names s := by
  unfold checkSection
  simp only [h.hasRange_iff]

theorem sameTable (h : f.AlikeBeside g) (table : f.HasTable) : f.SameTable g :=
  table.sameTable h.header fun i lower upper => h.bytes i (.table lower upper)

theorem hasTable (h : f.AlikeBeside g) (table : f.HasTable) : g.HasTable where
  nonempty := h.header ▸ table.nonempty
  stride := h.header ▸ table.stride
  inFile := by
    rw [h.header, h.hasRange_iff]
    exact table.inFile
  nameTable := h.header ▸ table.nameTable

theorem sectionHeader_eq (h : f.AlikeBeside g) (table : f.HasTable) {i : Nat}
    (hi : i < f.header.sectionCount) : g.sectionHeader i = f.sectionHeader i := by
  rw [(h.hasTable table).sectionHeader_eq (h.header ▸ hi), table.sectionHeader_eq hi,
    (h.sameTable table).headers i hi]
  simp only [tableAligned_congr h.header]

theorem sectionTable_eq (h : f.AlikeBeside g) : g.sectionTable = f.sectionTable := by
  unfold sectionTable
  simp only [h.header, h.hasRange_iff]
  refine bind_congr_of_ok fun _ hne => ?_
  refine bind_congr_of_ok fun _ hstride => ?_
  refine bind_congr_of_ok fun _ hfile => ?_
  refine bind_congr_of_ok fun _ hindex => ?_
  have table : f.HasTable := ⟨require_eq_ok_iff.mp hne, require_eq_ok_iff.mp hstride,
    require_eq_ok_iff.mp hfile, require_eq_ok_iff.mp hindex⟩
  rw [h.sectionHeader_eq table table.nameTable]
  refine bind_congr_of_ok fun nameTable hnameTable => ?_
  obtain ⟨-, -, rfl⟩ := (table.sectionHeader_eq_ok_iff table.nameTable).mp hnameTable
  have hnames : SameRange f.bytes g.bytes f.nameTable.offset f.nameTable.size :=
    fun i lower upper => h.bytes i (.sectionNames lower upper)
  have hrange := h.range_eq hnames
  unfold File.nameTable at hrange
  rw [hrange]
  refine bind_congr_of_ok fun names _ => ?_
  have hheaders (i : Nat) (hi : i ∈ List.range f.header.sectionCount) :
      (do let s ← g.sectionHeader i
          g.checkSection names s
          return s) =
        (do let s ← f.sectionHeader i
            f.checkSection names s
            return s : Outcome SectionHeader) := by
    rw [h.sectionHeader_eq table (List.mem_range.mp hi)]
    simp only [h.checkSection_eq]
  rw [mapM_congr hheaders]

theorem decodes (h : f.AlikeBeside g) (hd : FileHeader.Decodes f.bytes f.header) :
    FileHeader.Decodes g.bytes g.header := by
  rw [h.header]
  refine hd.congr fun i _ upper => h.bytes i (.header ?_)
  unfold fileHeaderSize
  omega

theorem firstNamed (h : f.AlikeBeside g) (ok : f.TableOk) {name : String}
    (first : f.FirstNamed name symtab) : g.FirstNamed name symtab := by
  have htable := h.sameTable ok.toHasTable
  have hnames : g.names = f.names :=
    htable.names_eq ok.toHasTable ok.names ((h.hasRange_iff _ _).mpr ok.names)
      fun i lower upper => h.bytes i (.sectionNames lower upper)
  unfold FirstNamed HasName at *
  simp only [htable.namedHeaders_eq ok.toHasTable, hnames]
  exact first

theorem keptSections_eq (h : f.AlikeBeside g) (ok : f.TableOk) :
    g.keptSections f.table = f.keptSections f.table := by
  have htable := h.sameTable ok.toHasTable
  rw [← htable.keptSections_eq ok.toHasTable, htable.table ok.toHasTable]
  intro s hs i scan
  have hlower := scan.1
  exact h.bytes i (.sectionNames (by omega) (ok.lt_of_scans_name hs scan))

theorem symbolNames_eq (h : f.AlikeBeside g)
    (hk : List.Forall₂ f.Keeps f.namedHeaders sections) :
    g.symbolNames sections = f.symbolNames sections := by
  unfold symbolNames
  rcases hfind : findSection? sections ".strtab" with _ | strtab
  · rfl
  · have first := (findSection?_eq_some_iff_firstNamed hk).mp hfind
    have hrange := h.range_eq fun i lower upper => h.bytes i (.symbolNames first lower upper)
    simp only [hrange]

end AlikeBeside

/-! ## Entries -/

def entries (f : File) (symtab : SectionHeader) : List SymbolEntry :=
  (List.range (symtab.size / symbolEntrySize)).map (f.entryAt symtab)

theorem symbolEntries_eq_entries (class64 : f.header.fileClass = .bits64)
    (symtabType : symtab.typeCode = 2) (hrange : HasRange f.bytes symtab.offset symtab.size) :
    f.symbolEntries symtab = .ok (f.entries symtab) :=
  symbolEntries_eq class64 ((SectionHeader.type?_eq_some_iff (by decide)).mpr symtabType) hrange

/-- Entry `k` has a name that can be read, and it is this one. -/
def Carries (f : File) (symtab : SectionHeader) (k : Nat) (name : String) : Prop :=
  ∃ strtab, f.HasSymbols symtab strtab ∧ (f.entryAt symtab k).HasName (f.content strtab) name

/-- At most one entry has a name that can be read and is this one. -/
def NamedOnce (f : File) (symtab : SectionHeader) (name : String) : Prop :=
  ∀ j < symtab.size / symbolEntrySize, ∀ k < symtab.size / symbolEntrySize,
    f.Carries symtab j name → f.Carries symtab k name → j = k

/-- The bytes that an audit takes for the names of the symbols: there are none, or those of `.strtab`. -/
def NamesSymbols (f : File) (symtab : SectionHeader) (names : ByteArray) : Prop :=
  ∀ i, Terminated names i → ∃ strtab, f.HasSymbols symtab strtab ∧ names = f.content strtab

theorem NamesSymbols.carries {names : ByteArray} (h : f.NamesSymbols symtab names) {k : Nat}
    {name : String} (hname : (f.entryAt symtab k).HasName names name) : f.Carries symtab k name := by
  obtain ⟨strtab, symbols, rfl⟩ := h _ hname.terminated
  exact ⟨strtab, symbols, hname⟩

end Elf.File

namespace Audit

open Elf

variable {f g : File} {symtab : SectionHeader}

/-- The verdict on a file depends on its symbol table through the layout that is read from it. -/
theorem ofImage_congr_entries (hd : FileHeader.Decodes f.bytes f.header)
    (own : f.OwnSymtab symtab) (alike : f.AlikeBeside g)
    (hread : ∀ names, f.NamesSymbols symtab names →
      readLayout names (g.entries symtab) = readLayout names (f.entries symtab)) (board : Board) :
    ofImage g.bytes board = ofImage f.bytes board := by
  rw [ofImage_eq (alike.decodes hd), ofImage_eq hd, alike.sectionTable_eq]
  refine bind_congr_of_ok fun table htable => ?_
  obtain ⟨ok, rfl⟩ := File.sectionTable_eq_ok_iff.mp htable
  rw [alike.keptSections_eq ok]
  refine bind_congr_of_ok fun sections hsections => ?_
  have hk := ok.keptSections_eq_ok_iff.mp hsections
  have hfind := (File.findSection?_eq_some_iff_firstNamed hk).mpr own.first
  have hrange : HasRange f.bytes symtab.offset symtab.size :=
    ok.hasRange_of_mem own.first.mem (by rw [own.symtabType]; decide)
  have hentries := File.symbolEntries_eq_entries own.class64 own.symtabType hrange
  have hentries' := File.symbolEntries_eq_entries (alike.header ▸ own.class64) own.symtabType
    ((alike.hasRange_iff _ _).mpr hrange)
  rw [bind_symbols_eq hfind, bind_symbols_eq hfind, alike.symbolNames_eq hk, hentries, hentries',
    alike.header]
  refine bind_congr_of_ok fun _ _ => bind_congr_of_ok fun names hnames => ?_
  rw [ok_bind, ok_bind, hread names]
  intro i hi
  exact ok.exists_hasSymbols hk hfind
    ((SectionHeader.type?_eq_some_iff (by decide)).mpr own.symtabType) hnames hi

end Audit

/-! ## Written images -/

namespace Elf.Image

variable {image : Image} {symtab : SectionHeader}

theorem keeps_kept (h : image.Encodable) (hf : image.forbidden? = none) :
    List.Forall₂ image.file.Keeps image.file.namedHeaders image.kept := by
  apply (tableOk h).keptSections_eq_ok_iff.mp
  rw [keptSections_eq h, hf]
  rfl

theorem ownSymtab (h : image.Encodable) (hf : image.forbidden? = none)
    (hfind : findSection? image.kept ".symtab" = some symtab) : image.file.OwnSymtab symtab := by
  have hk := keeps_kept h hf
  have first := (File.findSection?_eq_some_iff_firstNamed hk).mp hfind
  obtain ⟨nameOffset, hrow⟩ := findSection?_symtab h
  obtain rfl := Option.some.inj (hfind.symm.trans hrow)
  refine ⟨by rw [header_eq h], first, rfl, fun i hlower hupper hread => ?_⟩
  have lower : image.symtabOffset ≤ i := hlower
  have upper : i < image.strtabOffset := hupper
  have hstrtab : image.strtabOffset ≤ image.shstrtabOffset := Nat.le_add_right _ _
  have htable : image.strtabOffset ≤ image.tableOffset := by
    unfold tableOffset
    omega
  cases hread with
  | header hheader =>
    unfold symtabOffset at lower
    unfold fileHeaderSize at hheader
    omega
  | table hlower' _ =>
    rw [header_eq h] at hlower'
    have hlower' : image.tableOffset ≤ i := hlower'
    omega
  | sectionNames hlower' _ =>
    rw [(nameTable_eq h).1] at hlower'
    omega
  | @symbolNames strtab hfirst hlower' _ =>
    obtain ⟨nameOffset', hrow'⟩ := findSection?_strtab h
    obtain rfl := hfirst.unique ((File.findSection?_eq_some_iff_firstNamed hk).mp hrow')
    have hlower' : image.strtabOffset ≤ i := hlower'
    omega

theorem getElem?_of_carries (h : image.Encodable) (hf : image.forbidden? = none)
    (hfind : findSection? image.kept ".symtab" = some symtab) {k : Nat}
    (hk : k < symtab.size / symbolEntrySize) {name : String}
    (hc : image.file.Carries symtab k name) :
    (image.readSymbols.map NamedSymbol.name)[k]? = some name := by
  obtain ⟨strtab, symbols, hname⟩ := hc
  have hnames := File.symbolNames_eq_content (keeps_kept h hf) symbols
  rw [symbolNames_eq h] at hnames
  rw [← Except.ok.inj hnames] at hname
  obtain ⟨nameOffset, hrow⟩ := findSection?_symtab h
  obtain rfl := Option.some.inj (hfind.symm.trans hrow)
  have hlength : k < image.symbols.length + 1 := by
    have hsize : (image.symtabRow.header nameOffset).size = (image.symbols.length + 1) * 24 :=
      length_symtab
    rw [hsize, symbolEntrySize] at hk
    omega
  obtain ⟨-, hget⟩ := List.forall₂_iff_get.mp (forall₂_named h nameOffset)
  have hread := hget k (by simpa using hlength) (by simpa [readSymbols] using hlength)
  simp only [List.get_eq_getElem, List.getElem_map, List.getElem_range] at hread
  rw [List.getElem?_map, List.getElem?_eq_getElem (by simpa [readSymbols] using hlength),
    Option.map_some, hread.1.unique hname]

end Elf.Image

end KernelImage
