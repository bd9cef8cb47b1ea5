import KernelImage.Audit.Basic
import KernelImage.Proofs.Elf.Symbols
import KernelImage.Proofs.Layout.Check

/-!
# The steps of an audit

The sections that an audit keeps, the place of the symbol table among them, and the audit as a whole:
`Audit.ofImage_eq_ok_iff` says what holds of every step when the image is accepted.
-/

namespace KernelImage

theorem forbiddenStart?_eq_find? (name : String) :
    forbiddenStart? name =
      [".eh_frame", ".debug", ".comment"].find? fun start => start.toList <+: name.toList := by
  unfold forbiddenStart? discardedSections
  congr 1
  funext start
  rw [Bool.eq_iff_iff, List.isPrefixOf_iff_prefix, decide_eq_true_eq]

theorem forbiddenStart?_eq_none_iff {name : String} :
    forbiddenStart? name = none ↔ ∀ start ∈ discardedSections, ¬ start.toList <+: name.toList := by
  simp [forbiddenStart?]

namespace Elf

/-- The code of a type, where a type has only one. -/
def SectionType.code : SectionType → Nat
  | null => 0
  | progBits => 1
  | symTab => 2
  | strTab => 3
  | rela => 4
  | hash => 5
  | dynamic => 6
  | note => 7
  | noBits => 8
  | rel => 9
  | shLib => 10
  | dynSym => 11
  | initArray => 14
  | finiArray => 15
  | preInitArray => 16
  | group => 17
  | symTabIndex => 18
  | specific => 0x60000000

theorem SectionHeader.type?_eq_some_iff {s : SectionHeader} {t : SectionType} (ht : t ≠ .specific) :
    s.type? = some t ↔ s.typeCode = t.code := by
  unfold type?
  constructor
  · intro h
    unfold SectionType.ofCode? at h
    split at h
    case h_18 =>
      split at h
      · exact absurd (Option.some.inj h).symm ht
      · cases h
    all_goals
      obtain rfl := Option.some.inj h
      assumption
  · intro h
    rw [h]
    cases t with
    | specific => exact absurd rfl ht
    | _ => rfl

namespace File

/-! ## Kept sections -/

/-- The headers of all sections but the null ones, in the order of the table. -/
def namedHeaders (f : File) : List SectionHeader :=
  ((List.range f.header.sectionCount).map f.headerAt).filter fun s => s.typeCode ≠ 0

/-- The section has this name among the section names. -/
def HasName (f : File) (s : SectionHeader) (name : String) : Prop :=
  HasText f.names s.nameOffset name

/-- The section of a header, with its name, may stay in the image. -/
def Keeps (f : File) (h : SectionHeader) (s : Section) : Prop :=
  s.header = h ∧ f.HasName h s.name ∧ forbiddenStart? s.name = none

theorem TableOk.sectionOk_of_mem {f : File} (ok : f.TableOk) {s : SectionHeader}
    (hs : s ∈ f.namedHeaders) :
    s.type?.isSome ∧ (s.type? = some .noBits ∨ HasRange f.bytes s.offset s.size) ∧
      Terminated f.names s.nameOffset := by
  simp only [namedHeaders, List.mem_filter, List.mem_map, List.mem_range, decide_eq_true_eq] at hs
  obtain ⟨⟨i, hi, rfl⟩, hcode⟩ := hs
  exact (ok.sections i hi).resolve_left fun hnull => hcode ((SectionHeader.type?_eq_some_iff (by decide)).mp hnull)

theorem mem_namedHeaders {f : File} {i : Nat} (hi : i < f.header.sectionCount)
    (hnull : (f.headerAt i).typeCode ≠ 0) : f.headerAt i ∈ f.namedHeaders := by
  simp only [namedHeaders, List.mem_filter, List.mem_map, List.mem_range, decide_eq_true_eq]
  exact ⟨⟨i, hi, rfl⟩, hnull⟩

theorem TableOk.hasRange_of_mem {f : File} (ok : f.TableOk) {s : SectionHeader}
    (hs : s ∈ f.namedHeaders) (hbits : s.typeCode ≠ 8) : HasRange f.bytes s.offset s.size :=
  (ok.sectionOk_of_mem hs).2.1.resolve_left
    fun htype => hbits ((SectionHeader.type?_eq_some_iff (by decide)).mp htype)

/-- Names are read from the whole file, and still end within the section names. -/
theorem TableOk.hasName_iff {f : File} (ok : f.TableOk) {s : SectionHeader} (hs : s ∈ f.namedHeaders)
    {name : String} :
    HasText f.bytes (f.table.namesOffset + s.nameOffset) name ↔ f.HasName s name :=
  (hasText_extract_iff ok.names (ok.sectionOk_of_mem hs).2.2).symm

theorem filter_table_headers (f : File) :
    (f.table.headers.filter fun s => s.type? ≠ some .null) = f.namedHeaders := by
  unfold namedHeaders table
  congr 1
  funext s
  exact decide_eq_decide.mpr (not_congr (SectionHeader.type?_eq_some_iff (by decide)))

/-- The step of `keptSections` at one header. -/
def keep (f : File) (h : SectionHeader) : Outcome Section := do
  let name ← stringAt f.bytes (f.table.namesOffset + h.nameOffset)
  match forbiddenStart? name with
  | some start => .defect (.forbiddenSection start)
  | none => return ⟨name, h⟩

theorem keptSections_eq (f : File) : f.keptSections f.table = f.namedHeaders.mapM f.keep := by
  rw [← filter_table_headers]; rfl

theorem TableOk.keep_eq_ok_iff {f : File} (ok : f.TableOk) {h : SectionHeader}
    (hh : h ∈ f.namedHeaders) {s : Section} : f.keep h = .ok s ↔ f.Keeps h s := by
  simp only [keep, bind_eq_ok_iff, stringAt_eq_ok_iff, ok.hasName_iff hh]
  constructor
  · rintro ⟨name, hname, hstep⟩
    split at hstep
    · cases hstep
    · obtain rfl := Except.ok.inj hstep
      exact ⟨rfl, hname, ‹_›⟩
  · rintro ⟨rfl, hname, hallowed⟩
    exact ⟨s.name, hname, by rw [hallowed]; rfl⟩

theorem TableOk.faults_keep_iff {f : File} (ok : f.TableOk) {h : SectionHeader}
    (hh : h ∈ f.namedHeaders) : (f.keep h).Faults ↔ ∀ name, ¬ f.HasName h name := by
  simp only [keep, Outcome.faults_bind_iff, faults_stringAt_iff, ok.hasName_iff hh,
    or_iff_left_iff_imp]
  rintro ⟨name, -, hfault⟩
  split at hfault
  · exact absurd hfault (Outcome.not_faults_defect _)
  · exact absurd hfault (Outcome.not_faults_pure _)

theorem TableOk.keptSections_eq_ok_iff {f : File} (ok : f.TableOk) {sections : List Section} :
    f.keptSections f.table = .ok sections ↔ List.Forall₂ f.Keeps f.namedHeaders sections := by
  rw [keptSections_eq]
  exact mapM_eq_ok_iff_of_mem fun h hh s => ok.keep_eq_ok_iff hh

/-- The first section that cannot be kept has no name that is a text. -/
def FirstNameUnreadable (f : File) : Prop :=
  ∃ i, ∃ hi : i < f.namedHeaders.length, (∀ name, ¬ f.HasName f.namedHeaders[i] name) ∧
    ∀ j, (hj : j < i) → ∃ name, f.HasName f.namedHeaders[j] name ∧ forbiddenStart? name = none

theorem TableOk.faults_keptSections_iff {f : File} (ok : f.TableOk) :
    (f.keptSections f.table).Faults ↔ f.FirstNameUnreadable := by
  rw [keptSections_eq, Outcome.faults_mapM_iff, FirstNameUnreadable]
  refine exists_congr fun i => exists_congr fun hi => ?_
  rw [ok.faults_keep_iff (List.getElem_mem hi)]
  refine and_congr_right fun _ => forall_congr' fun j => forall_congr' fun hj => ?_
  simp only [ok.keep_eq_ok_iff (List.getElem_mem (Nat.lt_trans hj hi)), Keeps]
  constructor
  · rintro ⟨s, hs, hname, hallowed⟩
    exact ⟨s.name, hname, hallowed⟩
  · rintro ⟨name, hname, hallowed⟩
    exact ⟨⟨name, f.namedHeaders[j]⟩, rfl, hname, hallowed⟩

theorem allowed_of_mem {f : File} {sections : List Section}
    (hk : List.Forall₂ f.Keeps f.namedHeaders sections) {s : Section} (hs : s ∈ sections) :
    forbiddenStart? s.name = none := by
  obtain ⟨hlen, hget⟩ := List.forall₂_iff_get.mp hk
  obtain ⟨i, hi, rfl⟩ := List.getElem_of_mem hs
  exact (hget i (hlen ▸ hi) hi).2.2

/-! ## Sections by name -/

/-- The first section with this name has the header `h`. -/
def FirstNamed (f : File) (name : String) (h : SectionHeader) : Prop :=
  ∃ i, ∃ hi : i < f.namedHeaders.length, f.namedHeaders[i] = h ∧ f.HasName h name ∧
    ∀ j, (hj : j < i) → ¬ f.HasName f.namedHeaders[j] name

theorem FirstNamed.mem {f : File} {name : String} {h : SectionHeader} (hf : f.FirstNamed name h) :
    h ∈ f.namedHeaders := by
  obtain ⟨i, hi, rfl, -⟩ := hf
  exact List.getElem_mem hi

theorem findSection?_eq_some_iff_firstNamed {f : File} {sections : List Section}
    (hk : List.Forall₂ f.Keeps f.namedHeaders sections) {name : String} {h : SectionHeader} :
    findSection? sections name = some h ↔ f.FirstNamed name h := by
  obtain ⟨hlen, hget⟩ := List.forall₂_iff_get.mp hk
  have hname (i : Nat) (hi : i < f.namedHeaders.length) :
      sections[i].name = name ↔ f.HasName f.namedHeaders[i] name := by
    have hsec := (hget i hi (hlen ▸ hi)).2.1
    constructor
    · rintro rfl
      exact hsec
    · exact fun htext => HasText.unique hsec htext
  have hheader (i : Nat) (hi : i < f.namedHeaders.length) :
      sections[i].header = f.namedHeaders[i] := (hget i hi (hlen ▸ hi)).1
  rw [findSection?_eq_some_iff, FirstNamed]
  constructor
  · rintro ⟨i, hi, hn, rfl, hfirst⟩
    have hi' : i < f.namedHeaders.length := hlen ▸ hi
    refine ⟨i, hi', (hheader i hi').symm, ?_, fun j hj hj' => ?_⟩
    · rw [hheader i hi']
      exact (hname i hi').mp hn
    · exact hfirst j hj ((hname j (by omega)).mpr hj')
  · rintro ⟨i, hi, rfl, hn, hfirst⟩
    exact ⟨i, hlen ▸ hi, (hname i hi).mpr hn, hheader i hi,
      fun j hj hj' => hfirst j hj ((hname j (by omega)).mp hj')⟩

theorem TableOk.hasRange_of_findSection? {f : File} (ok : f.TableOk) {sections : List Section}
    (hk : List.Forall₂ f.Keeps f.namedHeaders sections) (s : SectionHeader)
    (hs : findSection? sections ".symtab" = some s) (htype : s.type? = some .symTab) :
    HasRange f.bytes s.offset s.size :=
  (ok.sectionOk_of_mem ((findSection?_eq_some_iff_firstNamed hk).mp hs).mem).2.1.resolve_left
    (by simp [htype])

/-- The symbols of the file are the entries of `symtab`, with their names in `strtab`. -/
structure HasSymbols (f : File) (symtab strtab : SectionHeader) : Prop where
  symtabFirst : f.FirstNamed ".symtab" symtab
  symtabType : symtab.typeCode = 2
  symtabInFile : HasRange f.bytes symtab.offset symtab.size
  strtabFirst : f.FirstNamed ".strtab" strtab
  strtabType : strtab.typeCode = 3
  strtabInFile : HasRange f.bytes strtab.offset strtab.size

/-- The bytes of a section. -/
def content (f : File) (s : SectionHeader) : ByteArray :=
  f.bytes.extract s.offset (s.offset + s.size)

theorem TableOk.exists_hasSymbols {f : File} (ok : f.TableOk) {sections : List Section}
    (hk : List.Forall₂ f.Keeps f.namedHeaders sections) {symtab : SectionHeader}
    (hfind : findSection? sections ".symtab" = some symtab) (htype : symtab.type? = some .symTab)
    {names : ByteArray} (hnames : f.symbolNames sections = .ok names) {i : Nat}
    (hi : Terminated names i) :
    ∃ strtab, f.HasSymbols symtab strtab ∧ names = f.content strtab := by
  obtain ⟨strtab, hfind', hrange, htype', hcontent⟩ := exists_strtab_of_terminated hnames hi
  refine ⟨strtab, ?_, hcontent⟩
  exact
    { symtabFirst := (findSection?_eq_some_iff_firstNamed hk).mp hfind
      symtabType := (SectionHeader.type?_eq_some_iff (by decide)).mp htype
      symtabInFile := ok.hasRange_of_findSection? hk symtab hfind htype
      strtabFirst := (findSection?_eq_some_iff_firstNamed hk).mp hfind'
      strtabType := (SectionHeader.type?_eq_some_iff (by decide)).mp htype'
      strtabInFile := hrange }

end File

end Elf

namespace Audit

open Elf

/-! ## The whole audit -/

theorem layoutOf_eq_ok_iff {symbols : List NamedSymbol} {l : Layout} :
    layoutOf symbols = .ok l ↔ ∀ s : Symbol, lastValue? symbols s.name = some (l.get s) :=
  Layout.resolve_eq_ok_iff

theorem ofImage_eq_ok_iff {bytes : ByteArray} {board : Board} {a : Audit} :
    ofImage bytes board = .ok a ↔
      ∃ (f : File) (sections : List Section) (symbols : List NamedSymbol),
        f.bytes = bytes ∧ FileHeader.Decodes bytes f.header ∧ f.TableOk ∧
        List.Forall₂ f.Keeps f.namedHeaders sections ∧ f.symbols sections = .ok symbols ∧
        (∀ s : Symbol, lastValue? symbols s.name = some (a.layout.get s)) ∧
        a.layout.Obeys board ∧ f.header.entry = a.layout.skernel ∧
        a = ⟨board, f.header.entry, sections.map Section.summary, a.layout⟩ := by
  simp only [ofImage, bind_eq_ok_iff, File.ofBytes_eq_ok_iff, File.sectionTable_eq_ok_iff,
    Outcome.ofResult_eq_ok_iff, layoutOf_eq_ok_iff, Layout.check_eq_ok_iff, ensure_eq_ok_iff,
    pure_eq_ok_iff, exists_const]
  constructor
  · rintro ⟨f, ⟨hbytes, hdecodes⟩, _, ⟨ok, rfl⟩, sections, hsections, symbols, hsymbols, layout,
      hlayout, hobeys, hentry, rfl⟩
    exact ⟨f, sections, symbols, hbytes, hdecodes, ok, ok.keptSections_eq_ok_iff.mp hsections,
      hsymbols, hlayout, hobeys, hentry, rfl⟩
  · rintro ⟨f, sections, symbols, hbytes, hdecodes, ok, hsections, hsymbols, hlayout, hobeys, hentry,
      heq⟩
    exact ⟨f, ⟨hbytes, hdecodes⟩, _, ⟨ok, rfl⟩, sections, ok.keptSections_eq_ok_iff.mpr hsections,
      symbols, hsymbols, a.layout, hlayout, hobeys, hentry, heq.symm⟩

theorem obeys_of_ofImage {bytes : ByteArray} {board : Board} {a : Audit}
    (h : ofImage bytes board = .ok a) : a.layout.Obeys board := by
  obtain ⟨-, -, -, -, -, -, -, -, -, hobeys, -⟩ := ofImage_eq_ok_iff.mp h
  exact hobeys

end Audit

end KernelImage
