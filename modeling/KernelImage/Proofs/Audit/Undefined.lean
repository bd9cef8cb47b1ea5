import KernelImage.Proofs.Audit.SymbolOrder
import KernelImage.Proofs.Layout.Defects

/-!
# Undefined symbols

An audit looks for the boundaries by the names of the symbol entries. It never asks which section
defines an entry, so an entry of section 0, which defines nothing, counts like any other.
-/

namespace KernelImage

namespace Elf.File

variable {f : File} {symtab : SectionHeader}

/-- Entry `k` has the name, and a section in which the symbol is defined. -/
def Defines (f : File) (symtab : SectionHeader) (k : Nat) (name : String) : Prop :=
  f.Carries symtab k name ∧ (f.entryAt symtab k).sectionIndex ≠ 0

/-- No entry of the table, defined or not, has the name of the boundary. -/
def Unnamed (f : File) (symtab : SectionHeader) (s : Symbol) : Prop :=
  ∀ k < symtab.size / symbolEntrySize, ¬ f.Carries symtab k s.name

def Undefined (f : File) (symtab : SectionHeader) (s : Symbol) : Prop :=
  ∀ k < symtab.size / symbolEntrySize, ¬ f.Defines symtab k s.name

theorem Unnamed.undefined {s : Symbol} (h : f.Unnamed symtab s) : f.Undefined symtab s :=
  fun k hk hdefines => h k hk hdefines.1

/-- An audit comes as far as the symbols of the file, and it can read all of their names. -/
structure ReachesSymbols (f : File) (symtab : SectionHeader) : Prop where
  table : f.TableOk
  kept : f.AllKept
  checked : f.SymbolsChecked symtab
  class64 : f.header.fileClass = .bits64
  symtabType : symtab.typeCode = 2
  readable : ∀ strtab, f.HasSymbols symtab strtab → ∀ k < symtab.size / symbolEntrySize,
    ¬ Unreadable (f.content strtab) (f.entryAt symtab k).nameOffset

/-- The bytes are those in which an audit looks up the names of the entries. -/
structure LooksUpIn (f : File) (symtab : SectionHeader) (names : ByteArray) : Prop where
  carries : ∀ k name, f.Carries symtab k name ↔ (f.entryAt symtab k).HasName names name
  readable : ∀ e ∈ f.entries symtab, ¬ Unreadable names e.nameOffset

theorem LooksUpIn.unnamed_iff {names : ByteArray} (h : f.LooksUpIn symtab names) {s : Symbol} :
    f.Unnamed symtab s ↔ ∀ e ∈ f.entries symtab, ¬ e.HasName names s.name := by
  simp only [Unnamed, entries, List.forall_mem_map, List.mem_range, h.carries]

end Elf.File

namespace Audit

open Elf

variable {f : File} {symtab : SectionHeader} {board : Board}

theorem exists_ofImage_eq (hd : FileHeader.Decodes f.bytes f.header)
    (reach : f.ReachesSymbols symtab) (board : Board) :
    ∃ names sections, f.LooksUpIn symtab names ∧
      ofImage f.bytes board =
        (readLayout names (f.entries symtab) >>= conclude f board sections) := by
  obtain ⟨sections, hk⟩ := File.allKept_iff.mp reach.kept
  obtain ⟨hfind, hsize, hoffset, names, hnames⟩ := (File.symbolsChecked_iff hk).mp reach.checked
  have htype : symtab.type? = some .symTab :=
    (SectionHeader.type?_eq_some_iff (by decide)).mpr reach.symtabType
  have found : f.NamesSymbols symtab names := fun i hi =>
    reach.table.exists_hasSymbols hk hfind htype hnames hi
  refine ⟨names, sections, ⟨fun k name => ⟨?_, found.carries⟩, ?_⟩, ?_⟩
  · rintro ⟨strtab, symbols, hname⟩
    rw [File.symbolNames_eq_content hk symbols] at hnames
    rwa [← Except.ok.inj hnames]
  · intro e he hbad
    obtain ⟨k, hlt, rfl⟩ := List.mem_map.mp he
    obtain ⟨strtab, symbols, rfl⟩ := found _ hbad.1
    exact reach.readable strtab symbols k (List.mem_range.mp hlt) hbad
  · have hrange : HasRange f.bytes symtab.offset symtab.size :=
      reach.table.hasRange_of_mem reach.checked.symtabFirst.mem (by rw [reach.symtabType]; decide)
    have hentries := File.symbolEntries_eq_entries reach.class64 reach.symtabType hrange
    have hpass : require (symtab.size % symbolEntrySize = 0 ∧ symtab.offset % 8 = 0)
        .brokenSymbolTable = .ok () := require_of ⟨hsize, hoffset⟩
    rw [ofImage_eq hd, File.sectionTable_eq_ok_iff.mpr ⟨reach.table, rfl⟩, ok_bind,
      reach.table.keptSections_eq_ok_iff.mpr hk, ok_bind, bind_symbols_eq hfind, hpass, ok_bind,
      hnames, ok_bind, hentries, ok_bind]
    rfl

theorem conclude_ne_missing {sections : List Section} {l : Layout} {s : Symbol} :
    conclude f board sections l ≠ .error (.defect (.missingSymbol s)) := by
  unfold conclude
  simp only [ne_eq, bind_eq_error_iff, ensure_eq_error_iff, Layout.check_eq_defect_iff]
  rintro (hcheck | ⟨_, -, ⟨-, hentry⟩ | ⟨_, -, hreport⟩⟩)
  · cases hcheck
  · cases hentry
  · cases hreport

theorem bind_conclude_eq_missing_iff {sections : List Section} {x : Outcome Layout} {s : Symbol} :
    (x >>= conclude f board sections) = .error (.defect (.missingSymbol s)) ↔
      x = .error (.defect (.missingSymbol s)) := by
  simp only [bind_eq_error_iff, conclude_ne_missing, and_false, exists_false, or_false]

/--
The boundaries are found by the names of the entries. So the first one without a definition is only
missed if no undefined entry has its name either, and an entry that is added may change the layout
whether or not it defines anything: it does so if no later entry has its name and its value is new.
-/
theorem ofImage_findsByName {bytes : ByteArray} (hf : File.ofBytes bytes = .ok f)
    (reach : f.ReachesSymbols symtab) (board : Board) :
    (∀ s, ofImage bytes board = .error (.defect (.missingSymbol s)) ↔
      IsFirst (f.Unnamed symtab) Symbol.all s) ∧
    (∀ s, IsFirst (f.Undefined symtab) Symbol.all s →
      (ofImage bytes board = .error (.defect (.missingSymbol s)) ↔ f.Unnamed symtab s)) ∧
    ∃ names sections, f.LooksUpIn symtab names ∧
      ofImage bytes board = (readLayout names (f.entries symtab) >>= conclude f board sections) ∧
      ∀ before after u l, f.entries symtab = before ++ after →
        readLayout names (f.entries symtab) = .ok l → ¬ Unreadable names u.nameOffset →
          (readLayout names (before ++ u :: after) = .ok l ↔
            ∀ s : Symbol, u.HasName names s.name →
              (∃ e ∈ after, e.HasName names s.name) ∨ u.value = l.get s) := by
  obtain ⟨rfl, hd⟩ := File.ofBytes_eq_ok_iff.mp hf
  obtain ⟨names, sections, looks, himage⟩ := exists_ofImage_eq hd reach board
  have hmissing (s : Symbol) : ofImage f.bytes board = .error (.defect (.missingSymbol s)) ↔
      IsFirst (f.Unnamed symtab) Symbol.all s := by
    rw [himage, bind_conclude_eq_missing_iff, readLayout_eq_missing_iff looks.readable]
    exact isFirst_congr fun t _ => looks.unnamed_iff.symm
  refine ⟨hmissing, fun s hs => ?_, names, sections, looks, himage, ?_⟩
  · rw [hmissing]
    refine ⟨fun h => h.1, fun h => ⟨h, ?_⟩⟩
    -- The boundaries before this one have a definition, and so a name.
    obtain ⟨-, earlier, later, hall, hfirst⟩ := hs
    exact ⟨earlier, later, hall, fun t ht hnone => hfirst t ht hnone.undefined⟩
  · intro before after u l hsplit hread hu
    rw [hsplit] at hread
    exact readLayout_insert_eq_ok_iff hread hu

/-! ## Accepted images -/

theorem reachesSymbols_of_ofImage_eq_ok {bytes : ByteArray} {a : Audit}
    (h : ofImage bytes board = .ok a) (hf : File.ofBytes bytes = .ok f)
    (first : f.FirstNamed ".symtab" symtab) : f.ReachesSymbols symtab := by
  obtain ⟨f', sections, found, rfl, hd, ok, hk, hs, -⟩ := ofImage_eq_ok_iff.mp h
  obtain rfl := Except.ok.inj (hf.symm.trans (File.ofBytes_eq_ok_iff.mpr ⟨rfl, hd⟩))
  obtain ⟨symtab', names, named, hfind, hsize, hoffset, hnames, class64, htype, -⟩ :=
    (File.symbols_eq_ok_iff (ok.hasRange_of_findSection? hk)).mp hs
  have kept : f.AllKept := File.allKept_iff.mpr ⟨_, hk⟩
  have checked : f.SymbolsChecked symtab' :=
    (File.symbolsChecked_iff hk).mpr ⟨hfind, hsize, hoffset, names, hnames⟩
  obtain rfl := checked.symtabFirst.unique first
  refine ⟨ok, kept, checked, class64, (SectionHeader.type?_eq_some_iff (by decide)).mp htype,
    fun strtab symbols k hlt hbad => ?_⟩
  have hfaults : (ofImage f.bytes board).Faults := faults_ofImage_iff.mpr
    ⟨f, rfl, hd, .symbolName ok kept checked class64 symbols hlt hbad⟩
  rw [h] at hfaults
  exact Outcome.not_faults_ok _ hfaults

theorem findsByName_smallImage :
    (∀ s, ¬ IsFirst (smallImage.file.Unnamed smallSymtab) Symbol.all s) ∧
      ∃ names l u, smallImage.file.LooksUpIn smallSymtab names ∧ u.sectionIndex = 0 ∧
        readLayout names (smallImage.file.entries smallSymtab) = .ok l ∧
        readLayout names (smallImage.file.entries smallSymtab ++ [u]) ≠ .ok l := by
  have hfile : File.ofBytes smallImage.encode = .ok smallImage.file :=
    File.ofBytes_eq_ok_iff.mpr ⟨rfl, smallImage.decodes⟩
  have reach : smallImage.file.ReachesSymbols smallSymtab :=
    reachesSymbols_of_ofImage_eq_ok ofImage_smallImage hfile ownSymtab_smallImage.first
  obtain ⟨hmissing, -, names, sections, looks, himage, hadded⟩ :=
    ofImage_findsByName hfile reach .qemu
  have hfound (s : Symbol) : ¬ IsFirst (smallImage.file.Unnamed smallSymtab) Symbol.all s := by
    rw [← hmissing s, ofImage_smallImage]
    exact nofun
  refine ⟨hfound, ?_⟩
  -- The entry for `skernel`, with section 0 and a value that is not the one that is read.
  obtain ⟨e, hname⟩ : ∃ e : SymbolEntry, e.HasName names Symbol.skernel.name := by
    by_contra hnone
    push Not at hnone
    refine hfound .skernel (isFirst_cons_iff.mpr (.inl ⟨fun k _ hcarries => ?_, rfl⟩))
    exact hnone _ ((looks.carries k _).mp hcarries)
  rw [ofImage_smallImage] at himage
  obtain ⟨l, hl, -⟩ := bind_eq_ok_iff.mp himage.symm
  obtain ⟨v, hv⟩ : ∃ v : Address, v ≠ l.skernel := by
    by_cases hzero : l.skernel = ⟨0⟩
    · exact ⟨⟨1⟩, by rw [hzero]; decide⟩
    · exact ⟨⟨0⟩, Ne.symm hzero⟩
  have hentry : ¬ Unreadable names e.nameOffset := fun hbad => hbad.2 _ hname
  refine ⟨names, l, ⟨e.nameOffset, 0, v⟩, looks, rfl, hl, ?_⟩
  rw [Ne, hadded _ [] ⟨e.nameOffset, 0, v⟩ l (List.append_nil _).symm hl hentry]
  intro hsame
  rcases hsame .skernel ((SymbolEntry.hasName_congr rfl).mpr hname) with ⟨later, hlater, -⟩ | hvalue
  · cases hlater
  · exact hv hvalue

/-! ## An image without definitions -/

/-- `smallImage` with section 0 in every entry of its symbol table. -/
def undefinedImage : ByteArray :=
  File.overwrite smallSymtab 6 8 (fun _ => True) 0 smallImage.encode

def undefinedFile : File := ⟨undefinedImage, smallImage.file.header⟩

theorem overwrites_undefinedImage :
    File.Overwrites smallSymtab 6 8 (fun _ => True) smallImage.encode undefinedImage :=
  File.overwrites_overwrite 0

theorem sectionIndex_undefinedFile {k : Nat} (hk : k < smallSymtab.size / symbolEntrySize) :
    (undefinedFile.entryAt smallSymtab k).sectionIndex = 0 := by
  have hrange : HasRange smallImage.encode smallSymtab.offset smallSymtab.size :=
    (Image.tableOk encodable_smallImage).hasRange_of_mem ownSymtab_smallImage.first.mem (by decide)
  have hbyte (j : Nat) (hstart : 6 ≤ j) (hstop : j < 8) :
      byteAt undefinedImage (smallSymtab.offset + k * symbolEntrySize + j) = 0 := by
    have hj : j < symbolEntrySize := by unfold symbolEntrySize; omega
    rw [byteAt, undefinedImage, File.getElem?_overwrite hrange hk hj trivial hstart hstop]
    rfl
  change littleEndian undefinedImage (smallSymtab.offset + k * symbolEntrySize + 6) 2 = 0
  rw [littleEndian_succ, littleEndian_one, hbyte 6 (by omega) (by omega), Nat.add_assoc,
    hbyte 7 (by omega) (by omega)]

/-- No entry defines a boundary, and none is reported as missing. -/
theorem ofImage_undefinedImage :
    File.ofBytes undefinedImage = .ok undefinedFile ∧ undefinedFile.ReachesSymbols smallSymtab ∧
      IsFirst (undefinedFile.Undefined smallSymtab) Symbol.all .skernel ∧
      ofImage undefinedImage .qemu = .ok smallAudit := by
  have alike : smallImage.file.AlikeBeside undefinedFile :=
    overwrites_undefinedImage.alikeBeside (by decide) ownSymtab_smallImage
  have hfile : File.ofBytes undefinedImage = .ok undefinedFile :=
    File.ofBytes_eq_ok_iff.mpr ⟨rfl, alike.decodes smallImage.decodes⟩
  have haccepted : ofImage undefinedImage .qemu = .ok smallAudit :=
    (ofImage_of_overwrites smallImage.decodes ownSymtab_smallImage (by decide) (by decide)
      (.inl (.inl (by decide))) overwrites_undefinedImage .qemu).trans ofImage_smallImage
  refine ⟨hfile, ?_, isFirst_cons_iff.mpr (.inl ⟨fun k hk hdefines => ?_, rfl⟩), haccepted⟩
  · exact reachesSymbols_of_ofImage_eq_ok haccepted hfile
      (alike.firstNamed (Image.tableOk encodable_smallImage) ownSymtab_smallImage.first)
  · exact hdefines.2 (sectionIndex_undefinedFile hk)

end Audit

end KernelImage
