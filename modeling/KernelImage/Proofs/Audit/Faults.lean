import KernelImage.Proofs.Audit.Basic

/-!
# Files on which an audit faults

`File.Faulty` lists the ways in which a file makes the audit end without an answer. They do not
depend on the board.
-/

namespace KernelImage

namespace Elf.File

/-- The sections all have names, and all may stay. -/
def AllKept (f : File) : Prop :=
  ∀ h ∈ f.namedHeaders, ∃ name, f.HasName h name ∧ forbiddenStart? name = none

/-- The checks of the symbol table pass: whole entries on a boundary, and names within the file. -/
structure SymbolsChecked (f : File) (symtab : SectionHeader) : Prop where
  symtabFirst : f.FirstNamed ".symtab" symtab
  entries : symtab.size % symbolEntrySize = 0
  aligned : symtab.offset % 8 = 0
  strtabInFile : ∀ s, f.FirstNamed ".strtab" s → HasRange f.bytes s.offset s.size

/-- The file passes all checks that come first, and then cannot be read. -/
inductive Faulty (f : File) : Prop where
  /-- The section header table does not start on its boundary. -/
  | misaligned (table : f.HasTable) (h : ¬ f.TableAligned)
  /-- The section names are in a section with a reserved index. -/
  | reservedNames (table : f.HasTable) (h : reservedIndices ≤ f.header.nameTableIndex)
  /-- Sections go on into the reserved indices. -/
  | reservedSection (table : f.HasTable) (names : f.NamesInFile)
      (many : reservedIndices < f.header.sectionCount)
      (sound : ∀ i < reservedIndices, f.SectionOk (f.headerAt i))
  /-- The name of a section is no text. -/
  | sectionName (table : f.TableOk) (h : f.FirstNameUnreadable)
  /-- The section named as the symbol table has broken contents of another type or class. -/
  | contents (table : f.TableOk) (kept : f.AllKept) {symtab : SectionHeader}
      (checked : f.SymbolsChecked symtab) {t : SectionType} (htype : symtab.type? = some t)
      (h : BrokenContents f.header.fileClass t symtab.size)
  /-- The name of a symbol is no text. -/
  | symbolName (table : f.TableOk) (kept : f.AllKept) {symtab strtab : SectionHeader}
      (checked : f.SymbolsChecked symtab) (class64 : f.header.fileClass = .bits64)
      (symbols : f.HasSymbols symtab strtab) {k : Nat} (hk : k < symtab.size / symbolEntrySize)
      (h : Unreadable (f.content strtab) (f.entryAt symtab k).nameOffset)

/-! ## Each step -/

theorem faulty_of_faults_sectionTable {f : File} (h : f.sectionTable.Faults) : f.Faulty := by
  obtain ⟨table, hal | hindex | ⟨names, many, sound⟩⟩ := faults_sectionTable_iff.mp h
  · exact .misaligned table hal
  · exact .reservedNames table hindex
  · exact .reservedSection table names many sound

theorem allKept_iff {f : File} :
    f.AllKept ↔ ∃ sections, List.Forall₂ f.Keeps f.namedHeaders sections := by
  unfold AllKept
  rw [exists_forall₂_iff]
  refine forall₂_congr fun h _ => ?_
  constructor
  · rintro ⟨name, hname, hallowed⟩
    exact ⟨⟨name, h⟩, rfl, hname, hallowed⟩
  · rintro ⟨s, rfl, hname, hallowed⟩
    exact ⟨s.name, hname, hallowed⟩

theorem symbolsChecked_iff {f : File} {sections : List Section}
    (hk : List.Forall₂ f.Keeps f.namedHeaders sections) {symtab : SectionHeader} :
    f.SymbolsChecked symtab ↔
      findSection? sections ".symtab" = some symtab ∧ symtab.size % symbolEntrySize = 0 ∧
        symtab.offset % 8 = 0 ∧ ∃ names, f.symbolNames sections = .ok names := by
  have hnames : (∃ names, f.symbolNames sections = .ok names) ↔
      ∀ s, f.FirstNamed ".strtab" s → HasRange f.bytes s.offset s.size := by
    simp only [symbolNames_eq_ok_iff, ← findSection?_eq_some_iff_firstNamed hk]
    rcases findSection? sections ".strtab" with _ | s <;> simp
  rw [hnames, findSection?_eq_some_iff_firstNamed hk]
  exact ⟨fun ⟨a, b, c, d⟩ => ⟨a, b, c, d⟩, fun ⟨a, b, c, d⟩ => ⟨a, b, c, d⟩⟩

theorem faulty_of_faults_symbols {f : File} (ok : f.TableOk) {sections : List Section}
    (hk : List.Forall₂ f.Keeps f.namedHeaders sections) (h : (f.symbols sections).Faults) :
    f.Faulty := by
  obtain ⟨symtab, names, hfind, hsize, hoffset, hnames, hfault⟩ :=
    (faults_symbols_iff (ok.hasRange_of_findSection? hk)).mp h
  have kept : f.AllKept := allKept_iff.mpr ⟨_, hk⟩
  have checked : f.SymbolsChecked symtab :=
    (symbolsChecked_iff hk).mpr ⟨hfind, hsize, hoffset, names, hnames⟩
  rcases hfault with ⟨t, htype, hbroken⟩ | ⟨hclass, htype, k, hlt, hbad⟩
  · exact .contents ok kept checked htype hbroken
  · obtain ⟨strtab, symbols, rfl⟩ := ok.exists_hasSymbols hk hfind htype hnames hbad.1
    exact .symbolName ok kept checked hclass symbols hlt hbad

theorem faults_symbols_of {f : File} (ok : f.TableOk) {sections : List Section}
    (hk : List.Forall₂ f.Keeps f.namedHeaders sections) {symtab : SectionHeader}
    (checked : f.SymbolsChecked symtab)
    (h : ∀ names, f.symbolNames sections = .ok names →
      (∃ t, symtab.type? = some t ∧ BrokenContents f.header.fileClass t symtab.size) ∨
        f.header.fileClass = .bits64 ∧ symtab.type? = some .symTab ∧
          ∃ k < symtab.size / symbolEntrySize, Unreadable names (f.entryAt symtab k).nameOffset) :
    (f.symbols sections).Faults := by
  obtain ⟨hfind, hsize, hoffset, names, hnames⟩ := (symbolsChecked_iff hk).mp checked
  exact (faults_symbols_iff (ok.hasRange_of_findSection? hk)).mpr
    ⟨symtab, names, hfind, hsize, hoffset, hnames, h names hnames⟩

theorem symbolNames_eq_content {f : File} {sections : List Section}
    (hk : List.Forall₂ f.Keeps f.namedHeaders sections) {symtab strtab : SectionHeader}
    (hs : f.HasSymbols symtab strtab) : f.symbolNames sections = .ok (f.content strtab) := by
  have hfind := (findSection?_eq_some_iff_firstNamed hk).mpr hs.strtabFirst
  have htype := (@SectionHeader.type?_eq_some_iff _ .strTab (by decide)).mpr hs.strtabType
  exact symbolNames_eq_ok_iff.mpr (.inr ⟨strtab, hfind, hs.strtabInFile, by rw [if_pos htype]; rfl⟩)

/-! ## All steps -/

/-- The steps of an audit that read the file; those after them report defects only. -/
theorem faulty_iff {f : File} :
    f.Faulty ↔ f.sectionTable.Faults ∨ f.TableOk ∧ ((f.keptSections f.table).Faults ∨
      ∃ sections, List.Forall₂ f.Keeps f.namedHeaders sections ∧ (f.symbols sections).Faults) := by
  constructor
  · intro hf
    cases hf with
    | misaligned table h => exact .inl (faults_sectionTable_iff.mpr ⟨table, .inl h⟩)
    | reservedNames table h => exact .inl (faults_sectionTable_iff.mpr ⟨table, .inr (.inl h)⟩)
    | reservedSection table names many sound =>
      exact .inl (faults_sectionTable_iff.mpr ⟨table, .inr (.inr ⟨names, many, sound⟩)⟩)
    | sectionName table h => exact .inr ⟨table, .inl (table.faults_keptSections_iff.mpr h)⟩
    | contents table kept checked htype h =>
      obtain ⟨sections, hk⟩ := allKept_iff.mp kept
      exact .inr ⟨table, .inr ⟨sections, hk,
        faults_symbols_of table hk checked fun _ _ => .inl ⟨_, htype, h⟩⟩⟩
    | symbolName table kept checked class64 symbols hlt h =>
      obtain ⟨sections, hk⟩ := allKept_iff.mp kept
      refine .inr ⟨table, .inr ⟨sections, hk, faults_symbols_of table hk checked ?_⟩⟩
      intro names hnames
      rw [symbolNames_eq_content hk symbols] at hnames
      obtain rfl := Except.ok.inj hnames
      have htype := (@SectionHeader.type?_eq_some_iff _ .symTab (by decide)).mpr symbols.symtabType
      exact .inr ⟨class64, htype, _, hlt, h⟩
  · rintro (h | ⟨ok, h | ⟨sections, hk, h⟩⟩)
    · exact faulty_of_faults_sectionTable h
    · exact .sectionName ok (ok.faults_keptSections_iff.mp h)
    · exact faulty_of_faults_symbols ok hk h

end Elf.File

/-- The bytes have a header, and the file with this header is faulty. -/
def FaultyBytes (bytes : ByteArray) : Prop :=
  ∃ f : Elf.File, f.bytes = bytes ∧ Elf.FileHeader.Decodes bytes f.header ∧ f.Faulty

namespace Audit

open Elf

theorem faults_ofImage_iff {bytes : ByteArray} {board : Board} :
    (ofImage bytes board).Faults ↔ FaultyBytes bytes := by
  simp only [ofImage, Outcome.faults_bind_iff, File.not_faults_ofBytes, File.ofBytes_eq_ok_iff,
    File.sectionTable_eq_ok_iff, Outcome.not_faults_ofResult, Layout.not_faults_check,
    Outcome.not_faults_ensure_defect, Outcome.not_faults_pure, false_or, and_false, exists_false,
    or_false, FaultyBytes, File.faulty_iff]
  constructor
  · rintro ⟨f, ⟨rfl, hd⟩, h | ⟨_, ⟨ok, rfl⟩, h | ⟨sections, hk, h⟩⟩⟩
    · exact ⟨f, rfl, hd, .inl h⟩
    · exact ⟨f, rfl, hd, .inr ⟨ok, .inl h⟩⟩
    · exact ⟨f, rfl, hd, .inr ⟨ok, .inr ⟨sections, ok.keptSections_eq_ok_iff.mp hk, h⟩⟩⟩
  · rintro ⟨f, rfl, hd, h | ⟨ok, h | ⟨sections, hk, h⟩⟩⟩
    · exact ⟨f, ⟨rfl, hd⟩, .inl h⟩
    · exact ⟨f, ⟨rfl, hd⟩, .inr ⟨_, ⟨ok, rfl⟩, .inl h⟩⟩
    · exact ⟨f, ⟨rfl, hd⟩, .inr ⟨_, ⟨ok, rfl⟩, .inr ⟨sections, ok.keptSections_eq_ok_iff.mpr hk, h⟩⟩⟩

end Audit

end KernelImage
