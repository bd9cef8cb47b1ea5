import KernelImage.Proofs.Audit.Faults
import KernelImage.Proofs.Elf.Agreement

/-!
# The bytes that an audit reads

`File.Reads` holds of the bytes that an audit looks at once the section header table is accepted.
All of them lie in the file, and an audit ends in the same way for every file in which they are the
same.
-/

namespace KernelImage

namespace Elf.File

/-- Byte `i` is read in an audit whose section header table is accepted. -/
inductive Reads (f : File) (i : Nat) : Prop where
  | header (upper : i < fileHeaderSize)
  | table (lower : f.header.tableOffset ≤ i)
      (upper : i < f.header.tableOffset + f.header.sectionCount * sectionHeaderSize)
  /-- The name of a section is read up to the next zero byte of the file. -/
  | sectionName {s : SectionHeader} (hs : s ∈ f.namedHeaders)
      (scan : Scans f.bytes (f.nameTable.offset + s.nameOffset) i)
  /-- The bytes of the section that is taken for the symbol table, of any type that has bytes. -/
  | contents {s : SectionHeader} (first : f.FirstNamed ".symtab" s) (hbits : s.typeCode ≠ 8)
      (lower : s.offset ≤ i) (upper : i < s.offset + s.size)
  /-- The name of a symbol is read up to the next zero byte of the section of names. -/
  | symbolName {symtab strtab : SectionHeader} (checked : f.SymbolsChecked symtab)
      (class64 : f.header.fileClass = .bits64) (symtabType : symtab.typeCode = 2)
      (names : f.FirstNamed ".strtab" strtab) {k : Nat} (hk : k < symtab.size / symbolEntrySize)
      (lower : strtab.offset ≤ i) (upper : i < strtab.offset + strtab.size)
      (scan : Scans (f.content strtab) (f.entryAt symtab k).nameOffset (i - strtab.offset))

/-! ## Reads within the file -/

theorem TableOk.lt_of_scans_name {f : File} (ok : f.TableOk) {s : SectionHeader}
    (hs : s ∈ f.namedHeaders) {i : Nat}
    (scan : Scans f.bytes (f.nameTable.offset + s.nameOffset) i) :
    i < f.nameTable.offset + f.nameTable.size := by
  obtain ⟨z, hz, hlt, hzero⟩ := (ok.sectionOk_of_mem hs).2.2.exists_zero ok.names
  have hle := scan.le_of_zero hz hzero
  omega

theorem TableOk.lt_size_of_reads {f : File} (hroom : fileHeaderSize ≤ f.bytes.size) (ok : f.TableOk)
    {i : Nat} (h : f.Reads i) : i < f.bytes.size := by
  cases h with
  | header upper => omega
  | table lower upper =>
    have hfile := ok.inFile
    unfold HasRange at hfile
    omega
  | sectionName hs scan =>
    have hnames := ok.names
    have := ok.lt_of_scans_name hs scan
    unfold NamesInFile HasRange at hnames
    omega
  | contents first hbits lower upper =>
    have hrange := ok.hasRange_of_mem first.mem hbits
    unfold HasRange at hrange
    omega
  | symbolName checked class64 symtabType names hk lower upper scan =>
    have hrange := checked.strtabInFile _ names
    unfold HasRange at hrange
    omega

/-! ## Files with the same reads -/

/-- The other file has a sound table too, and the same stands wherever the first one is read. -/
structure ReadsAlike (f g : File) : Prop where
  header : g.header = f.header
  table : g.TableOk
  bytes : ∀ i, f.Reads i → g.bytes[i]? = f.bytes[i]?
  /-- The section with the names of the symbols is in both files or in none. -/
  strtab : ∀ s, f.FirstNamed ".strtab" s →
    (HasRange g.bytes s.offset s.size ↔ HasRange f.bytes s.offset s.size)

variable {f g : File} {sections : List Section} {symtab strtab : SectionHeader}

theorem SameTable.namedHeaders_eq (h : f.SameTable g) (table : f.HasTable) :
    g.namedHeaders = f.namedHeaders := by
  rw [← filter_table_headers, h.table table, filter_table_headers]

theorem ReadsAlike.sameTable (h : f.ReadsAlike g) (ok : f.TableOk) : f.SameTable g :=
  ok.toHasTable.sameTable h.header fun i lower upper => h.bytes i (.table lower upper)

theorem SameTable.keptSections_eq (h : f.SameTable g) (table : f.HasTable)
    (hnames : ∀ s ∈ f.namedHeaders, ∀ i, Scans f.bytes (f.nameTable.offset + s.nameOffset) i →
      g.bytes[i]? = f.bytes[i]?) :
    g.keptSections g.table = f.keptSections f.table := by
  rw [File.keptSections_eq, File.keptSections_eq, h.namedHeaders_eq table]
  refine mapM_congr fun s hs => ?_
  have hname : stringAt g.bytes (f.table.namesOffset + s.nameOffset) =
      stringAt f.bytes (f.table.namesOffset + s.nameOffset) := stringAt_congr (hnames s hs)
  rw [keep, keep, h.table table, hname]

theorem ReadsAlike.keptSections_eq (h : f.ReadsAlike g) (ok : f.TableOk) :
    g.keptSections g.table = f.keptSections f.table :=
  (h.sameTable ok).keptSections_eq ok.toHasTable fun _ hs i scan => h.bytes i (.sectionName hs scan)

theorem ReadsAlike.entryAt_eq (h : f.ReadsAlike g) (first : f.FirstNamed ".symtab" symtab)
    (htype : symtab.typeCode = 2) {k : Nat} (hk : k < symtab.size / symbolEntrySize) :
    g.entryAt symtab k = f.entryAt symtab k := by
  apply SymbolEntry.of_congr
  intro i lower upper
  refine h.bytes i (.contents first (by omega) (by omega) ?_)
  unfold symbolEntrySize at *
  omega

theorem ReadsAlike.symbolEntries_eq (h : f.ReadsAlike g) (ok : f.TableOk)
    (first : f.FirstNamed ".symtab" symtab) :
    g.symbolEntries symtab = f.symbolEntries symtab := by
  by_cases hsym : f.header.fileClass = .bits64 ∧ symtab.type? = some .symTab
  · obtain ⟨hclass, htype⟩ := hsym
    have hcode : symtab.typeCode = 2 := (SectionHeader.type?_eq_some_iff (by decide)).mp htype
    have hmem : symtab ∈ g.namedHeaders :=
      (h.sameTable ok).namedHeaders_eq ok.toHasTable ▸ first.mem
    rw [File.symbolEntries_eq (h.header ▸ hclass) htype (h.table.hasRange_of_mem hmem (by omega)),
      File.symbolEntries_eq hclass htype (ok.hasRange_of_mem first.mem (by omega))]
    refine congrArg Except.ok (List.map_congr_left fun k hk => ?_)
    exact h.entryAt_eq first hcode (List.mem_range.mp hk)
  · unfold symbolEntries
    rw [h.header]
    split
    · exact absurd ⟨‹_›, ‹_›⟩ hsym
    · rfl
    · rfl

theorem ReadsAlike.named_eq (h : f.ReadsAlike g) (checked : f.SymbolsChecked symtab)
    (hclass : f.header.fileClass = .bits64) (htype : symtab.typeCode = 2)
    (names : f.FirstNamed ".strtab" strtab) {k : Nat} (hk : k < symtab.size / symbolEntrySize) :
    (f.entryAt symtab k).named (g.content strtab) = (f.entryAt symtab k).named (f.content strtab) := by
  have hrange := checked.strtabInFile _ names
  refine SymbolEntry.named_congr fun i scan => ?_
  rw [content, content, getElem?_extract ((h.strtab _ names).mpr hrange), getElem?_extract hrange]
  split
  case isTrue hi =>
    refine h.bytes _ (.symbolName checked hclass htype names hk (by omega) (by omega) ?_)
    rw [Nat.add_sub_cancel_left]
    exact scan
  case isFalse => rfl

theorem symbolNames_eq_reject {s : SectionHeader} (hfind : findSection? sections ".strtab" = some s)
    (h : ¬ HasRange f.bytes s.offset s.size) : f.symbolNames sections = reject .outsideFile := by
  rw [symbolNames, hfind]
  simp only [range, require, ensure, if_neg h]
  rfl

theorem ReadsAlike.bind_entries_eq (h : f.ReadsAlike g) (ok : f.TableOk)
    (first : f.FirstNamed ".symtab" symtab) {names names' : ByteArray}
    (hnamed : f.header.fileClass = .bits64 → symtab.typeCode = 2 →
      ∀ k < symtab.size / symbolEntrySize,
        (f.entryAt symtab k).named names' = (f.entryAt symtab k).named names) :
    (do let entries ← g.symbolEntries symtab
        let named ← entries.mapM (SymbolEntry.named names')
        return named.filterMap id) =
      (do let entries ← f.symbolEntries symtab
          let named ← entries.mapM (SymbolEntry.named names)
          return named.filterMap id : Outcome (List NamedSymbol)) := by
  rw [h.symbolEntries_eq ok first]
  refine bind_congr_of_ok fun entries hentries => ?_
  have hcode (htype : symtab.type? = some .symTab) : symtab.typeCode = 2 :=
    (SectionHeader.type?_eq_some_iff (by decide)).mp htype
  obtain ⟨hclass, htype, rfl⟩ := (symbolEntries_eq_ok_iff fun htype =>
    ok.hasRange_of_mem first.mem (by rw [hcode htype]; decide)).mp hentries
  rw [mapM_congr]
  intro e he
  obtain ⟨k, hk, rfl⟩ := List.mem_map.mp he
  exact hnamed hclass (hcode htype) k (List.mem_range.mp hk)

theorem ReadsAlike.symbols_eq (h : f.ReadsAlike g) (ok : f.TableOk)
    (hk : List.Forall₂ f.Keeps f.namedHeaders sections) :
    g.symbols sections = f.symbols sections := by
  have hfirst (name : String) (s : SectionHeader) (hs : findSection? sections name = some s) :
      f.FirstNamed name s := (findSection?_eq_some_iff_firstNamed hk).mp hs
  unfold symbols
  rcases hsymtab : findSection? sections ".symtab" with _ | symtab
  · rfl
  refine bind_congr_of_ok fun _ hrequired => ?_
  obtain ⟨hsize, hoffset⟩ := require_eq_ok_iff.mp hrequired
  rcases hstrtab : findSection? sections ".strtab" with _ | strtab
  · have hempty (e : File) : e.symbolNames sections = .ok .empty := by rw [symbolNames, hstrtab]
    rw [hempty, hempty, ok_bind, ok_bind]
    exact h.bind_entries_eq ok (hfirst _ _ hsymtab) fun _ _ _ _ => rfl
  have names : f.FirstNamed ".strtab" strtab := hfirst _ _ hstrtab
  by_cases hrange : HasRange f.bytes strtab.offset strtab.size
  · have hnames (e : File) (he : HasRange e.bytes strtab.offset strtab.size) :
        e.symbolNames sections = .ok (if strtab.type? = some .strTab then e.content strtab else .empty) :=
      symbolNames_eq_ok_iff.mpr (.inr ⟨strtab, hstrtab, he, rfl⟩)
    rw [hnames g ((h.strtab _ names).mpr hrange), hnames f hrange, ok_bind, ok_bind]
    refine h.bind_entries_eq ok (hfirst _ _ hsymtab) fun hclass htype k hlt => ?_
    have checked : f.SymbolsChecked symtab :=
      (symbolsChecked_iff hk).mpr ⟨hsymtab, hsize, hoffset, _, hnames f hrange⟩
    split
    · exact h.named_eq checked hclass htype names hlt
    · rfl
  · rw [symbolNames_eq_reject hstrtab hrange,
      symbolNames_eq_reject hstrtab fun hg => hrange ((h.strtab _ names).mp hg), reject_bind,
      reject_bind]

end Elf.File

namespace Audit

open Elf

theorem ofImage_eq {f : File} (hd : FileHeader.Decodes f.bytes f.header) (board : Board) :
    ofImage f.bytes board = do
      let table ← f.sectionTable
      let sections ← f.keptSections table
      let symbols ← f.symbols sections
      let layout ← .ofResult (layoutOf symbols)
      layout.check board
      ensure (f.header.entry = layout.skernel)
        (.defect (.entryMismatch layout.skernel f.header.entry))
      return ⟨board, f.header.entry, sections.map Section.summary, layout⟩ := by
  have hfile : File.ofBytes f.bytes = .ok f := File.ofBytes_eq_ok_iff.mpr ⟨rfl, hd⟩
  rw [ofImage, hfile, ok_bind]

/-- An audit depends on no byte but those that it reads. -/
theorem ofImage_congr {f g : File} (hd : FileHeader.Decodes f.bytes f.header) (ok : f.TableOk)
    (h : f.ReadsAlike g) (board : Board) : ofImage g.bytes board = ofImage f.bytes board := by
  have hd' : FileHeader.Decodes g.bytes g.header := by
    rw [h.header]
    refine hd.congr fun i _ upper => h.bytes i (.header ?_)
    unfold fileHeaderSize
    omega
  have htable (e : File) (he : e.TableOk) : e.sectionTable = .ok e.table :=
    File.sectionTable_eq_ok_iff.mpr ⟨he, rfl⟩
  rw [ofImage_eq hd', ofImage_eq hd, htable g h.table, htable f ok, ok_bind, ok_bind,
    h.keptSections_eq ok, h.header]
  refine bind_congr_of_ok fun sections hsections => ?_
  rw [h.symbols_eq ok (ok.keptSections_eq_ok_iff.mp hsections)]

end Audit

end KernelImage
