import KernelImage.Proofs.Audit.Reads
import KernelImage.Proofs.Audit.RoundTrip

/-!
# Files that refer outside themselves

`File.Overruns` lists what a file can refer to past its end; an audit reports every such file as
malformed. Once the section header table is accepted, `File.LateFault` lists the faults that are
left. None of them is a read outside the file.
-/

namespace KernelImage

namespace Elf

/-! ## Failures that are about the form of a file -/

/-- A fault, or a defect in the form of the file. -/
def OfForm (e : Failure) : Prop := (∃ m : Malformed, e = m.failure) ∨ ∃ x, e = .fault x

theorem failsWithin_require {c : Prop} [Decidable c] {m : Malformed} :
    (require c m).FailsWithin OfForm := Outcome.failsWithin_ensure (.inl ⟨m, rfl⟩)

theorem failsWithin_reject {α : Type} {m : Malformed} :
    (reject m : Outcome α).FailsWithin OfForm := Outcome.failsWithin_error (.inl ⟨m, rfl⟩)

namespace File

variable {f : File}

theorem failsWithin_range {offset size : Nat} : (f.range offset size).FailsWithin OfForm :=
  failsWithin_require.bind fun _ _ => Outcome.failsWithin_pure _

theorem failsWithin_checkSection {names : ByteArray} {s : SectionHeader} :
    (f.checkSection names s).FailsWithin OfForm := by
  unfold checkSection
  split
  · exact failsWithin_reject
  · exact Outcome.failsWithin_ok ()
  · exact failsWithin_require.bind fun _ _ => failsWithin_require

theorem HasTable.failsWithin_sectionHeader (h : f.HasTable) {i : Nat}
    (hi : i < f.header.sectionCount) : (f.sectionHeader i).FailsWithin OfForm := by
  rw [h.sectionHeader_eq hi]
  refine (Outcome.failsWithin_ensure (.inr ⟨_, rfl⟩)).bind fun _ _ => ?_
  refine (Outcome.failsWithin_ensure (.inr ⟨_, rfl⟩)).bind fun _ _ => ?_
  exact Outcome.failsWithin_pure _

theorem failsWithin_sectionTable (f : File) : f.sectionTable.FailsWithin OfForm := by
  refine failsWithin_require.bind fun _ hne => ?_
  refine failsWithin_require.bind fun _ hstride => ?_
  refine failsWithin_require.bind fun _ hfile => ?_
  refine failsWithin_require.bind fun _ hindex => ?_
  have h : f.HasTable := ⟨require_eq_ok_iff.mp hne, require_eq_ok_iff.mp hstride,
    require_eq_ok_iff.mp hfile, require_eq_ok_iff.mp hindex⟩
  refine (h.failsWithin_sectionHeader h.nameTable).bind fun s _ => ?_
  refine failsWithin_range.bind fun names _ => ?_
  refine Outcome.FailsWithin.bind ?_ fun _ _ => Outcome.failsWithin_pure _
  refine Outcome.failsWithin_mapM fun i hi => ?_
  refine (h.failsWithin_sectionHeader (List.mem_range.mp hi)).bind fun s _ => ?_
  exact failsWithin_checkSection.bind fun _ _ => Outcome.failsWithin_pure _

/-! ## References past the end -/

/-- The file refers to something that does not lie within it. -/
inductive Overruns (f : File) : Prop where
  /-- The section header table ends past the end of the file. -/
  | table (h : ¬ HasRange f.bytes f.header.tableOffset
      (f.header.sectionCount * f.header.tableStride))
  /-- The section names end past the end of the file. -/
  | names (table : f.HasTable) (aligned : f.TableAligned)
      (few : f.header.sectionCount ≤ reservedIndices) (h : ¬ f.NamesInFile)
  /-- The bytes of a section end past the end of the file. -/
  | contents (table : f.HasTable) (aligned : f.TableAligned)
      (few : f.header.sectionCount ≤ reservedIndices) {i : Nat} (hi : i < f.header.sectionCount)
      (hnull : (f.headerAt i).typeCode ≠ 0) (hbits : (f.headerAt i).typeCode ≠ 8)
      (h : ¬ HasRange f.bytes (f.headerAt i).offset (f.headerAt i).size)
  /-- The name of a section is not closed within the section names. -/
  | sectionName (table : f.HasTable) (aligned : f.TableAligned)
      (few : f.header.sectionCount ≤ reservedIndices) {i : Nat} (hi : i < f.header.sectionCount)
      (hnull : (f.headerAt i).typeCode ≠ 0) (h : ¬ Terminated f.names (f.headerAt i).nameOffset)

theorem Overruns.not_tableOk (h : f.Overruns) : ¬ f.TableOk := by
  intro ok
  cases h with
  | table h => exact h (ok.stride ▸ ok.inFile)
  | names table aligned few h => exact h ok.names
  | contents table aligned few hi hnull hbits h =>
    exact h (ok.hasRange_of_mem (mem_namedHeaders hi hnull) hbits)
  | sectionName table aligned few hi hnull h =>
    exact h (ok.sectionOk_of_mem (mem_namedHeaders hi hnull)).2.2

theorem Overruns.readable (h : f.Overruns) (table : f.HasTable) :
    f.TableAligned ∧ f.header.sectionCount ≤ reservedIndices := by
  cases h with
  | table h => exact absurd (table.stride ▸ table.inFile) h
  | names _ aligned few _ => exact ⟨aligned, few⟩
  | contents _ aligned few _ _ _ _ => exact ⟨aligned, few⟩
  | sectionName _ aligned few _ _ _ => exact ⟨aligned, few⟩

theorem exists_sectionTable_eq_reject (hbad : ¬ f.TableOk)
    (hread : f.HasTable → f.TableAligned ∧ f.header.sectionCount ≤ reservedIndices) :
    ∃ m : Malformed, f.sectionTable = reject m := by
  rcases hresult : f.sectionTable with e | t
  · rcases failsWithin_sectionTable f e hresult with ⟨m, rfl⟩ | ⟨x, rfl⟩
    · exact ⟨m, rfl⟩
    obtain ⟨table, hcases⟩ := faults_sectionTable_iff.mp ⟨x, hresult⟩
    obtain ⟨aligned, few⟩ := hread table
    rcases hcases with hal | hindex | ⟨-, hmany, -⟩
    · exact absurd aligned hal
    · have := table.nameTable
      omega
    · omega
  · exact absurd (sectionTable_eq_ok_iff.mp hresult).1 hbad

/-! ## Faults after the table -/

/-- A fault that an audit can end in although the section header table is accepted. -/
inductive LateFault (f : File) : Fault → Prop where
  /-- The name of a section is no text. -/
  | sectionName {s : SectionHeader} (hs : s ∈ f.namedHeaders)
      (h : Unreadable f.names s.nameOffset) : LateFault f .invalidText
  /-- The section that is taken for the symbol table is of another type or class. -/
  | contents {s : SectionHeader} (first : f.FirstNamed ".symtab" s)
      (h : ¬ (f.header.fileClass = .bits64 ∧ s.typeCode = 2)) {x : Fault}
      (hx : x = .brokenEntries ∨ x = .unsupportedType) : LateFault f x
  /-- The name of a symbol is no text. -/
  | symbolName {symtab strtab : SectionHeader} (symbols : f.HasSymbols symtab strtab)
      (class64 : f.header.fileClass = .bits64) {k : Nat} (hk : k < symtab.size / symbolEntrySize)
      (h : Unreadable (f.content strtab) (f.entryAt symtab k).nameOffset) : LateFault f .invalidText

/-- The failure is a defect or one of the faults that are left. -/
def Late (f : File) (e : Failure) : Prop := ∀ x, e = .fault x → f.LateFault x

theorem late_defect (d : Defect) : f.Late (.defect d) := by
  rintro x ⟨⟩

end File

theorem Terminated.of_stringAt_eq_error {bytes : ByteArray} {start : Nat} {e : Failure}
    (h : Terminated bytes start) (he : stringAt bytes start = .error e) :
    e = .fault .invalidText ∧ Unreadable bytes start := by
  have hno (text : String) : ¬ HasText bytes start text := by
    intro htext
    rw [stringAt_eq_ok_iff.mpr htext] at he
    cases he
  refine ⟨?_, h, hno⟩
  unfold stringAt at he
  split at he
  case h_1 hnone => exact absurd h (terminator?_eq_none_iff.mp hnone)
  case h_2 => exact (Outcome.orFault_eq_error_iff.mp he).2

theorem SymbolEntry.of_named_eq_error {names : ByteArray} {e : SymbolEntry} {failure : Failure}
    (h : e.named names = .error failure) :
    failure = .fault .invalidText ∧ Unreadable names e.nameOffset := by
  unfold named at h
  split at h
  case h_1 => cases h
  case h_2 hsome =>
    have hterm : Terminated names e.nameOffset := terminated_iff_isSome.mpr (by simp [hsome])
    rcases htext : stringAt names e.nameOffset with failure' | text
    · rw [htext] at h
      obtain rfl := Except.error.inj h
      exact hterm.of_stringAt_eq_error htext
    · rw [htext] at h
      cases h

theorem contentsFault?_cases {c : FileClass} {t : SectionType} {size : Nat} {x : Fault}
    (h : contentsFault? c t size = some x) : x = .brokenEntries ∨ x = .unsupportedType := by
  unfold contentsFault? at h
  grind

namespace File

variable {f : File} {sections : List Section}

theorem TableOk.failsWithin_keptSections (ok : f.TableOk) :
    (f.keptSections f.table).FailsWithin f.Late := by
  rw [keptSections_eq]
  refine Outcome.failsWithin_mapM fun s hs => ?_
  refine Outcome.FailsWithin.bind ?_ fun name _ => ?_
  · rintro _ he x rfl
    -- The name is closed within the section names, and so it is in the file.
    have hterm := (ok.sectionOk_of_mem hs).2.2
    obtain ⟨z, hz, -, hzero⟩ := hterm.exists_zero ok.names
    have hclosed : Terminated f.bytes (f.table.namesOffset + s.nameOffset) := ⟨z, hz, hzero⟩
    obtain ⟨hx, -, hno⟩ := hclosed.of_stringAt_eq_error he
    obtain rfl := Failure.fault.inj hx
    exact .sectionName hs ⟨hterm, fun name hname => hno name ((ok.hasName_iff hs).mpr hname)⟩
  · split
    · exact Outcome.failsWithin_error (late_defect _)
    · exact Outcome.failsWithin_pure _

theorem TableOk.failsWithin_symbolEntries (ok : f.TableOk) {symtab : SectionHeader}
    (first : f.FirstNamed ".symtab" symtab) : (f.symbolEntries symtab).FailsWithin f.Late := by
  by_cases hsym : f.header.fileClass = .bits64 ∧ symtab.type? = some .symTab
  · obtain ⟨hclass, htype⟩ := hsym
    have hcode : symtab.typeCode = 2 := (SectionHeader.type?_eq_some_iff (by decide)).mp htype
    rw [symbolEntries_eq hclass htype (ok.hasRange_of_mem first.mem (by omega))]
    exact Outcome.failsWithin_ok _
  · have hother : ¬ (f.header.fileClass = .bits64 ∧ symtab.typeCode = 2) := fun ⟨hclass, hcode⟩ =>
      hsym ⟨hclass, (@SectionHeader.type?_eq_some_iff _ .symTab (by decide)).mpr hcode⟩
    unfold symbolEntries
    split
    · exact absurd ⟨‹_›, ‹_›⟩ hsym
    · split
      case h_1 fault hfault =>
        refine Outcome.failsWithin_error ?_
        rintro _ ⟨⟩
        exact .contents first hother (contentsFault?_cases hfault)
      case h_2 => exact Outcome.failsWithin_error (late_defect _)
    · exact Outcome.failsWithin_error (late_defect _)

theorem TableOk.failsWithin_symbols (ok : f.TableOk)
    (hk : List.Forall₂ f.Keeps f.namedHeaders sections) :
    (f.symbols sections).FailsWithin f.Late := by
  unfold symbols
  rcases hfind : findSection? sections ".symtab" with _ | symtab
  · exact Outcome.failsWithin_error (late_defect _)
  have first : f.FirstNamed ".symtab" symtab :=
    (findSection?_eq_some_iff_firstNamed hk).mp hfind
  refine (Outcome.failsWithin_ensure (late_defect _)).bind fun _ _ => ?_
  refine (Outcome.failsWithin_of_not_faults not_faults_symbolNames).bind fun names hnames => ?_
  refine (ok.failsWithin_symbolEntries first).bind fun entries hentries => ?_
  refine Outcome.FailsWithin.bind ?_ fun _ _ => Outcome.failsWithin_pure _
  refine Outcome.failsWithin_mapM fun e he => ?_
  obtain ⟨hclass, htype, rfl⟩ :=
    (symbolEntries_eq_ok_iff (ok.hasRange_of_findSection? hk symtab hfind)).mp hentries
  obtain ⟨k, hlt, rfl⟩ := List.mem_map.mp he
  rintro _ hfailure x rfl
  obtain ⟨hx, hunreadable⟩ := SymbolEntry.of_named_eq_error hfailure
  obtain rfl := Failure.fault.inj hx
  obtain ⟨strtab, symbols, rfl⟩ := ok.exists_hasSymbols hk hfind htype hnames hunreadable.1
  exact .symbolName symbols hclass (List.mem_range.mp hlt) hunreadable

end File

end Elf

namespace Audit

open Elf

variable {f : File}

theorem exists_ofImage_eq_reject (hd : FileHeader.Decodes f.bytes f.header) (hbad : ¬ f.TableOk)
    (hread : f.HasTable → f.TableAligned ∧ f.header.sectionCount ≤ reservedIndices)
    (board : Board) : ∃ m : Malformed, ofImage f.bytes board = reject m := by
  obtain ⟨m, hm⟩ := File.exists_sectionTable_eq_reject hbad hread
  refine ⟨m, ?_⟩
  rw [ofImage_eq hd, hm, reject_bind]

theorem lateFault_of_ofImage_eq_fault (hd : FileHeader.Decodes f.bytes f.header) (ok : f.TableOk)
    {board : Board} {x : Fault} (h : ofImage f.bytes board = .error (.fault x)) :
    f.LateFault x := by
  have hlate : (ofImage f.bytes board).FailsWithin f.Late := by
    rw [ofImage_eq hd, File.sectionTable_eq_ok_iff.mpr ⟨ok, rfl⟩, ok_bind]
    refine ok.failsWithin_keptSections.bind fun sections hsections => ?_
    have hk := ok.keptSections_eq_ok_iff.mp hsections
    refine (ok.failsWithin_symbols hk).bind fun symbols _ => ?_
    refine (Outcome.failsWithin_of_not_faults (Outcome.not_faults_ofResult _)).bind fun l _ => ?_
    refine (Outcome.failsWithin_of_not_faults (l.not_faults_check board)).bind fun _ _ => ?_
    refine (Outcome.failsWithin_ensure (File.late_defect _)).bind fun _ _ => ?_
    exact Outcome.failsWithin_pure _
  exact hlate _ h x rfl

theorem ofImage_of_size_lt {bytes : ByteArray} (h : bytes.size < fileHeaderSize) (board : Board) :
    ofImage bytes board = reject .truncatedHeader := by
  have hshort : ¬ fileHeaderSize ≤ bytes.size := by omega
  rw [ofImage, File.ofBytes, FileHeader.read, require, ensure, if_neg hshort]
  rfl

/--
Bytes that are too few for a header, or that refer to something outside themselves, are reported as
malformed. In a file with a sound table every byte that is read lies in the file, no other byte
matters, and an audit can only fault on a name that is no text or on a symbol table of another type or
class.
-/
theorem ofImage_within_bounds (bytes : ByteArray) (board : Board) :
    ((bytes.size < 64 ∨ ∃ f, File.ofBytes bytes = .ok f ∧ f.Overruns) →
        ∃ m : Malformed, ofImage bytes board = reject m) ∧
      ∀ f, File.ofBytes bytes = .ok f → ∀ table, f.sectionTable = .ok table →
        (∀ i, f.Reads i → i < bytes.size) ∧
        (∀ g, f.ReadsAlike g → ofImage g.bytes board = ofImage bytes board) ∧
        ∀ x, ofImage bytes board = .error (.fault x) → f.LateFault x := by
  constructor
  · rintro (hshort | ⟨f, hf, h⟩)
    · exact ⟨_, ofImage_of_size_lt hshort board⟩
    · obtain ⟨rfl, hd⟩ := File.ofBytes_eq_ok_iff.mp hf
      exact exists_ofImage_eq_reject hd h.not_tableOk h.readable board
  · intro f hf table htable
    obtain ⟨rfl, hd⟩ := File.ofBytes_eq_ok_iff.mp hf
    obtain ⟨ok, -⟩ := File.sectionTable_eq_ok_iff.mp htable
    exact ⟨fun i => ok.lt_size_of_reads hd.room, fun g alike => ofImage_congr hd ok alike board,
      fun x => lateFault_of_ofImage_eq_fault hd ok⟩

theorem overruns_header {image : Image} (h : image.Encodable) :
    (⟨image.encode.extract 0 64, image.file.header⟩ : File).Overruns := by
  refine .table fun hrange => ?_
  have hroom := image.decodes.room
  have hsize : (image.encode.extract 0 64).size = 64 := by
    rw [ByteArray.size_extract]
    omega
  rw [HasRange, hsize, Image.header_eq h] at hrange
  have hfit : image.tableOffset + (image.sections.length + 4) * 64 ≤ 64 := hrange
  omega

theorem within_bounds_smallImage :
    File.ofBytes smallImage.encode = .ok smallImage.file ∧
      smallImage.file.sectionTable = .ok smallImage.file.table ∧
      (∀ i, smallImage.file.Reads i → i < smallImage.encode.size) ∧
      (∃ m : Malformed, ofImage (smallImage.encode.extract 0 64) .qemu = reject m) ∧
      ∃ m : Malformed, ofImage (smallImage.encode.extract 0 63) .qemu = reject m := by
  have hfile : File.ofBytes smallImage.encode = .ok smallImage.file :=
    File.ofBytes_eq_ok_iff.mpr ⟨rfl, smallImage.decodes⟩
  have htable : smallImage.file.sectionTable = .ok smallImage.file.table :=
    File.sectionTable_eq_ok_iff.mpr ⟨Image.tableOk encodable_smallImage, rfl⟩
  have hheader : File.ofBytes (smallImage.encode.extract 0 64) =
      .ok ⟨smallImage.encode.extract 0 64, smallImage.file.header⟩ :=
    File.ofBytes_eq_ok_iff.mpr
      ⟨rfl, smallImage.decodes.congr (.of_extract smallImage.decodes.room)⟩
  have hshort : (smallImage.encode.extract 0 63).size < 64 := by
    rw [ByteArray.size_extract]
    omega
  exact ⟨hfile, htable, ((ofImage_within_bounds _ .qemu).2 _ hfile _ htable).1,
    (ofImage_within_bounds _ .qemu).1 (.inr ⟨_, hheader, overruns_header encodable_smallImage⟩),
    (ofImage_within_bounds _ .qemu).1 (.inl hshort)⟩

end Audit

end KernelImage
