import KernelImage.Proofs.Audit.RoundTrip

/-!
# What an accepted image holds

`Certified` says of the bytes themselves what an accepting audit reports: the sections with their
names, the boundary symbols, the rules for their layout and the entry point.
-/

namespace KernelImage

namespace Elf.File

/-- The summary says what the header and its name say. -/
structure Lists (f : File) (h : SectionHeader) (s : SectionSummary) : Prop where
  name : f.HasName h s.name
  address : s.address = h.address
  size : s.size.toNat = h.size
  allocated : s.allocated = h.flags.testBit 1

theorem size_lt_of_mem_namedHeaders {f : File} {h : SectionHeader} (hh : h ∈ f.namedHeaders) :
    h.size < 2 ^ 64 := by
  simp only [namedHeaders, List.mem_filter, List.mem_map] at hh
  obtain ⟨⟨i, -, rfl⟩, -⟩ := hh
  unfold headerAt
  split
  · exact Nat.lt_trans (littleEndian_lt _ _ _) (by decide)
  · exact littleEndian_lt _ _ _

theorem Keeps.lists {f : File} {h : SectionHeader} {s : Section} (hk : f.Keeps h s)
    (hh : h ∈ f.namedHeaders) : f.Lists h s.summary := by
  obtain ⟨rfl, hname, -⟩ := hk
  exact ⟨hname, rfl, UInt64.toNat_ofNat_of_lt' (size_lt_of_mem_namedHeaders hh), rfl⟩

theorem lists_summaries {f : File} {sections : List Section}
    (hk : List.Forall₂ f.Keeps f.namedHeaders sections) :
    List.Forall₂ f.Lists f.namedHeaders (sections.map Section.summary) := by
  rw [List.forall₂_map_right_iff]
  obtain ⟨hlen, hget⟩ := List.forall₂_iff_get.mp hk
  rw [List.forall₂_iff_get]
  exact ⟨hlen, fun i hi hi' => (hget i hi hi').lists (List.getElem_mem hi)⟩

end Elf.File

namespace Audit

open Elf

/-- What an accepted image is known to hold, said of its bytes as a 64-bit file. -/
structure Certified (bytes : ByteArray) (board : Board) (a : Audit) : Prop where
  room : 64 ≤ bytes.size
  magic : littleEndian bytes 0 4 = 0x464c457f
  class64 : byteAt bytes 4 = 2
  table : (File.of64 bytes).TableOk
  target : a.board = board
  /-- The sections are all those of a type other than null, in the order of the table. -/
  sections : List.Forall₂ (File.of64 bytes).Lists (File.of64 bytes).namedHeaders a.sections
  allowed : ∀ s ∈ a.sections, ∀ start ∈ [".eh_frame", ".debug", ".comment"],
    ¬ start.toList <+: s.name.toList
  /-- Each boundary has the value of the last entry with its name. -/
  symbols : ∃ symtab strtab, (File.of64 bytes).HasSymbols symtab strtab ∧
    ∀ s : Symbol, (File.of64 bytes).LastEntry symtab ((File.of64 bytes).content strtab) s.name
      (a.layout.get s)
  layout : a.layout.check board = .ok ()
  entry : a.entry = .ofNat (littleEndian bytes 24 8)
  start : a.entry = a.layout.skernel ∧ a.layout.skernel = board.base

theorem eq_of64_of_symbols {f : File} {sections : List Section} {found : List NamedSymbol}
    (hd : FileHeader.Decodes f.bytes f.header) (ok : f.TableOk)
    (hk : List.Forall₂ f.Keeps f.namedHeaders sections) (hs : f.symbols sections = .ok found) :
    byteAt f.bytes 4 = 2 ∧ f = .of64 f.bytes := by
  obtain ⟨table, names, named, -, -, -, -, hclass, -⟩ :=
    (File.symbols_eq_ok_iff (ok.hasRange_of_findSection? hk)).mp hs
  rcases hd.fields with ⟨-, hheader⟩ | ⟨hbyte, hheader⟩
  · rw [hheader] at hclass
    cases hclass
  · exact ⟨hbyte, by rw [File.of64, ← hheader]⟩

theorem hasSymbols_of_symbols {f : File} {sections : List Section} {found : List NamedSymbol}
    (ok : f.TableOk) (hk : List.Forall₂ f.Keeps f.namedHeaders sections)
    (hs : f.symbols sections = .ok found) {l : Layout}
    (hl : ∀ s : Symbol, lastValue? found s.name = some (l.get s)) :
    ∃ symtab strtab, f.HasSymbols symtab strtab ∧
      ∀ s : Symbol, f.LastEntry symtab (f.content strtab) s.name (l.get s) := by
  obtain ⟨symtab, names, named, hfind, -, -, hnames, hclass, htype, hnamed, rfl⟩ :=
    (File.symbols_eq_ok_iff (ok.hasRange_of_findSection? hk)).mp hs
  have hlast (s : Symbol) : f.LastEntry symtab names s.name (l.get s) :=
    (File.lastValue?_eq_some_iff hnamed).mp (hl s)
  -- A name of any boundary shows that there are symbol names at all.
  obtain ⟨k, -, hname, -⟩ := hlast .skernel
  obtain ⟨strtab, symbols, rfl⟩ := ok.exists_hasSymbols hk hfind htype hnames hname.terminated
  exact ⟨symtab, strtab, symbols, hlast⟩

theorem certified_of_ofImage_eq_ok {bytes : ByteArray} {board : Board} {a : Audit}
    (h : ofImage bytes board = .ok a) : Certified bytes board a := by
  obtain ⟨f, sections, found, rfl, hd, ok, hk, hs, hl, hobeys, hentry, ha⟩ :=
    ofImage_eq_ok_iff.mp h
  obtain ⟨hclass, hf⟩ := eq_of64_of_symbols hd ok hk hs
  have hsections : a.sections = sections.map Section.summary := by rw [ha]
  have hboard : a.board = board := by rw [ha]
  have hreport : a.entry = f.header.entry := by rw [ha]
  refine
    { room := hd.room
      magic := hd.magic
      class64 := hclass
      table := hf ▸ ok
      target := hboard
      sections := ?_
      allowed := ?_
      symbols := hf ▸ hasSymbols_of_symbols ok hk hs hl
      layout := Layout.check_eq_ok_iff.mpr hobeys
      entry := ?_
      start := ⟨hreport.trans hentry, hobeys.skernel⟩ }
  · rw [← hf, hsections]
    exact File.lists_summaries hk
  · intro s hmem start hstart
    rw [hsections] at hmem
    obtain ⟨t, ht, rfl⟩ := List.mem_map.mp hmem
    exact forbiddenStart?_eq_none_iff.mp (File.allowed_of_mem hk ht) start hstart
  · rw [hreport, hf]
    rfl

/-- What is reported of `smallImage`. -/
def smallAudit : Audit :=
  ⟨.qemu, smallImage.entry, smallImage.summaries, smallImage.layout⟩

theorem ofImage_smallImage : ofImage smallImage.encode .qemu = .ok smallAudit := by
  rw [ofImage_encode_of_layout encodable_smallImage (by decide +kernel) (by decide +kernel)]
  decide +kernel

theorem certified_smallImage :
    ofImage smallImage.encode .qemu = .ok smallAudit ∧
      Certified smallImage.encode .qemu smallAudit :=
  ⟨ofImage_smallImage, certified_of_ofImage_eq_ok ofImage_smallImage⟩

end Audit

end KernelImage
