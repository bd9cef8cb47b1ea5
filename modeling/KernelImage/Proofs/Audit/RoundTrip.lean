import KernelImage.Proofs.Elf.Decode

/-!
# Audits of written images

`Image.verdict` judges an image as it was given, before it is written. An audit of the written bytes
gives the same verdict.
-/

namespace KernelImage

namespace Elf.Image

variable (image : Image)

/-- The first boundary for which the image has no symbol. -/
def missing? : Option Symbol :=
  Symbol.all.find? fun s => ∀ t ∈ image.symbols, t.name ≠ s.name

/-- The value of the last symbol with the name of the boundary. -/
def value? (s : Symbol) : Option Address :=
  (image.symbols.reverse.find? fun t => t.name = s.name).map NamedSymbol.value

def layout : Layout := .ofFn fun s => (image.value? s).getD default

/-- The sections of the image, and those that are added in writing it. -/
def summaries : List SectionSummary :=
  image.sections.map (fun s => ⟨s.name, s.address, s.size, s.flags.toNat.testBit 1⟩) ++
    [⟨".symtab", ⟨0⟩, .ofNat image.symtab.length, false⟩,
      ⟨".strtab", ⟨0⟩, .ofNat image.strtab.length, false⟩,
      ⟨".shstrtab", ⟨0⟩, .ofNat image.shstrtab.length, false⟩]

/-- What an audit should find: the first defect in this order, or the whole image. -/
def verdict (board : Board) : Outcome Audit :=
  match image.forbidden?, image.missing?, image.layout.check board with
  | some start, _, _ => .error (.defect (.forbiddenSection start))
  | none, some s, _ => .error (.defect (.missingSymbol s))
  | none, none, .error e => .error e
  | none, none, .ok () =>
    if image.entry = image.layout.skernel then
      .ok ⟨board, image.entry, image.summaries, image.layout⟩
    else
      .error (.defect (.entryMismatch image.layout.skernel image.entry))

variable {image}

/-! ## Reports -/

/-- What is reported of a row. Where its name stands does not matter. -/
def rowSummary (r : Row) : SectionSummary := ⟨r.name, r.address, .ofNat r.size, r.flags.testBit 1⟩

theorem map_rowSummary_rows : image.rows.map rowSummary = image.summaries := by
  have hsections : (List.zipWith ImageSection.row (offsetsFrom 64 image.contents) image.sections).map
      rowSummary = image.sections.map
        fun s => ⟨s.name, s.address, s.size, s.flags.toNat.testBit 1⟩ := by
    rw [List.map_zipWith]
    apply List.ext_getElem
    · simp [contents]
    · intro i _ _
      simp [rowSummary, ImageSection.row]
  rw [rows, List.map_append, hsections, summaries]
  simp [rowSummary, symtabRow, nameRow]

theorem map_summary_kept : image.kept.map Section.summary = image.summaries := by
  have hsnd : image.placedRows.map Prod.snd = image.rows := List.map_snd_zip (by simp)
  rw [← map_rowSummary_rows, ← hsnd, kept, List.map_map, List.map_map]
  rfl

/-! ## Layouts -/

theorem lastValue?_readSymbols (s : Symbol) :
    lastValue? image.readSymbols s.name = image.value? s := by
  have hname : "" ≠ s.name := by cases s <;> decide
  rw [lastValue?, readSymbols, List.filter_cons_of_neg (by simpa using hname)]
  exact lastValue?_eq_find? image.symbols s.name

theorem value?_eq_none_iff {s : Symbol} :
    image.value? s = none ↔ ∀ t ∈ image.symbols, t.name ≠ s.name := by
  simp [value?]

theorem layoutOf_readSymbols :
    Audit.layoutOf image.readSymbols =
      image.missing?.elim (.ok image.layout) fun s => .error (.missingSymbol s) := by
  have hmissing : (Symbol.all.find? fun s => (lastValue? image.readSymbols s.name).isNone) =
      image.missing? := by
    unfold missing?
    congr 1
    funext s
    rw [lastValue?_readSymbols, Bool.eq_iff_iff, Option.isNone_iff_eq_none, value?_eq_none_iff,
      decide_eq_true_eq]
  rw [Audit.layoutOf, Layout.resolve, hmissing]
  rcases image.missing? with _ | s
  · simp only [lastValue?_readSymbols]
    rfl
  · rfl

end Elf.Image

namespace Audit

open Elf

variable {image : Image} {board : Board}

theorem ofImage_encode_eq (h : image.Encodable) :
    ofImage image.encode board = do
      let sections ← image.file.keptSections image.file.table
      let symbols ← image.file.symbols sections
      let layout ← .ofResult (layoutOf symbols)
      layout.check board
      ensure (image.entry = layout.skernel) (.defect (.entryMismatch layout.skernel image.entry))
      return ⟨board, image.entry, sections.map Section.summary, layout⟩ := by
  have hfile : File.ofBytes image.encode = .ok image.file :=
    File.ofBytes_eq_ok_iff.mpr ⟨rfl, image.decodes⟩
  have htable : image.file.sectionTable = .ok image.file.table :=
    File.sectionTable_eq_ok_iff.mpr ⟨Image.tableOk h, rfl⟩
  have hentry : image.file.header.entry = image.entry := by rw [Image.header_eq h]
  rw [ofImage, hfile, ok_bind, htable, ok_bind, hentry]

theorem ofImage_encode_of_forbidden (h : image.Encodable) {start : String}
    (hf : image.forbidden? = some start) :
    ofImage image.encode board = .error (.defect (.forbiddenSection start)) := by
  rw [ofImage_encode_eq h, Image.keptSections_eq h, hf]
  rfl

theorem ofImage_encode_of_missing (h : image.Encodable) (hf : image.forbidden? = none) {s : Symbol}
    (hm : image.missing? = some s) :
    ofImage image.encode board = .error (.defect (.missingSymbol s)) := by
  rw [ofImage_encode_eq h, Image.keptSections_eq h, hf, Option.map_none, Option.elim_none, ok_bind,
    Image.symbols_eq h, ok_bind, Image.layoutOf_readSymbols, hm]
  rfl

theorem ofImage_encode_of_layout (h : image.Encodable) (hf : image.forbidden? = none)
    (hm : image.missing? = none) :
    ofImage image.encode board = do
      image.layout.check board
      ensure (image.entry = image.layout.skernel)
        (.defect (.entryMismatch image.layout.skernel image.entry))
      return ⟨board, image.entry, image.summaries, image.layout⟩ := by
  rw [ofImage_encode_eq h, Image.keptSections_eq h, hf, Option.map_none, Option.elim_none, ok_bind,
    Image.symbols_eq h, ok_bind, Image.layoutOf_readSymbols, hm, Option.elim_none,
    Image.map_summary_kept]
  rfl

theorem ofImage_encode_eq_verdict (h : image.Encodable) (board : Board) :
    ofImage image.encode board = image.verdict board := by
  unfold Image.verdict
  rcases hf : image.forbidden? with _ | start
  · rcases hm : image.missing? with _ | s
    · rw [ofImage_encode_of_layout h hf hm]
      rcases image.layout.check board with e | ⟨⟩
      · rfl
      · by_cases hentry : image.entry = image.layout.skernel
        · simp only [ensure, hentry, if_true]
          rfl
        · simp only [ensure, hentry, if_false]
          rfl
    · exact ofImage_encode_of_missing h hf hm
  · exact ofImage_encode_of_forbidden h hf

/-- An image with one page of code and a boot stack. -/
def smallImage : Image where
  entry := ⟨0x80200000⟩
  sections :=
    [⟨".text", false, 6, ⟨0x80200000⟩, 16⟩, ⟨".bss", true, 3, ⟨0x80201000⟩, 0x10000⟩]
  symbols := Symbol.all.map fun s =>
    ⟨s.name, if s.index < 2 then ⟨0x80200000⟩ else if s.index < 11 then ⟨0x80201000⟩
      else ⟨0x80211000⟩⟩

theorem encodable_smallImage : smallImage.Encodable := by decide +kernel

/-- `smallImage`, linked with its debug data. -/
def debugImage : Image :=
  { smallImage with sections := smallImage.sections ++ [⟨".debug_info", false, 0, ⟨0⟩, 8⟩] }

/-- `smallImage`, in which two symbols are named `skernel`. -/
def repeatedImage : Image := { smallImage with symbols := ⟨"skernel", ⟨0⟩⟩ :: smallImage.symbols }

/-- `smallImage` without the symbol `ekernel`. -/
def openImage : Image := { smallImage with symbols := smallImage.symbols.dropLast }

theorem ofImage_encode_smallImage :
    (smallImage.Encodable ∧ ofImage smallImage.encode .k210 =
      .error (.defect (.baseMismatch ⟨0x80020000⟩ ⟨0x80200000⟩))) ∧
    (debugImage.Encodable ∧ ofImage debugImage.encode .qemu =
      .error (.defect (.forbiddenSection ".debug"))) ∧
    (openImage.Encodable ∧ ofImage openImage.encode .qemu =
      .error (.defect (.missingSymbol .ekernel))) ∧
    repeatedImage.Encodable ∧ ∃ a, ofImage repeatedImage.encode .qemu = .ok a ∧
      a.layout.skernel = ⟨0x80200000⟩ := by
  have hdebug : debugImage.Encodable := by decide +kernel
  have hopen : openImage.Encodable := by decide +kernel
  have hrepeated : repeatedImage.Encodable := by decide +kernel
  refine ⟨⟨encodable_smallImage, ?_⟩, ⟨hdebug, ?_⟩, ⟨hopen, ?_⟩, hrepeated,
    ⟨.qemu, repeatedImage.entry, repeatedImage.summaries, repeatedImage.layout⟩, ?_, ?_⟩
  · rw [ofImage_encode_eq_verdict encodable_smallImage .k210]
    decide +kernel
  · rw [ofImage_encode_eq_verdict hdebug .qemu]
    decide +kernel
  · rw [ofImage_encode_eq_verdict hopen .qemu]
    decide +kernel
  · rw [ofImage_encode_eq_verdict hrepeated .qemu]
    decide +kernel
  · decide +kernel

end Audit

end KernelImage
