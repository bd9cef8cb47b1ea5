import KernelImage.Elf.Symbols
import KernelImage.Proofs.Elf.Pieces

/-!
# Images written as files

`Image.encode` writes an image as a 64-bit file: the header, the contents of the sections, the symbol
table, the two name tables and the section header table. Every offset is known while writing, and
`Holds` says what stands there in the whole file.
-/

namespace KernelImage.Elf

/-- A section that is to be written. All its bytes are zero. -/
structure ImageSection where
  name : String
  /-- The section takes up no bytes of the file. -/
  noBits : Bool
  flags : UInt64
  address : Address
  size : UInt64
deriving DecidableEq

structure Image where
  entry : Address
  sections : List ImageSection
  symbols : List NamedSymbol
deriving DecidableEq

/-! ## Pieces in sequence -/

/-- The offsets of pieces that are written one after another. -/
def offsetsFrom (start : Nat) : List (List UInt8) → List Nat
  | [] => []
  | p :: ps => start :: offsetsFrom (start + p.length) ps

@[simp]
theorem length_offsetsFrom (start : Nat) (pieces : List (List UInt8)) :
    (offsetsFrom start pieces).length = pieces.length := by
  induction pieces generalizing start with
  | nil => rfl
  | cons p ps ih => rw [offsetsFrom, List.length_cons, ih, List.length_cons]

theorem Holds.pieces {bytes : ByteArray} {start : Nat} {pieces : List (List UInt8)}
    (h : Holds bytes start pieces.flatten) {i : Nat} (hi : i < pieces.length)
    (ho : i < (offsetsFrom start pieces).length) :
    Holds bytes (offsetsFrom start pieces)[i] pieces[i] := by
  induction pieces generalizing start i with
  | nil => cases hi
  | cons p ps ih =>
    rw [List.flatten_cons, holds_append_iff] at h
    obtain ⟨hp, hps⟩ := h
    cases i with
    | zero => exact hp
    | succ i => exact ih hps (Nat.lt_of_succ_lt_succ hi) (Nat.lt_of_succ_lt_succ ho)

theorem getElem_offsetsFrom {start size : Nat} {pieces : List (List UInt8)}
    (hsize : ∀ p ∈ pieces, p.length = size) {i : Nat} (hi : i < (offsetsFrom start pieces).length) :
    (offsetsFrom start pieces)[i] = start + i * size := by
  induction pieces generalizing start i with
  | nil => cases hi
  | cons p ps ih =>
    cases i with
    | zero => simp [offsetsFrom]
    | succ i =>
      have hp : p.length = size := hsize p (by simp)
      have hi' : i < (offsetsFrom (start + p.length) ps).length := Nat.lt_of_succ_lt_succ hi
      have hrest := ih (fun q hq => hsize q (by simp [hq])) hi'
      rw [Nat.succ_mul]
      simp only [offsetsFrom, List.getElem_cons_succ, hrest]
      omega

theorem length_flatten_of_forall {size : Nat} {pieces : List (List UInt8)}
    (hsize : ∀ p ∈ pieces, p.length = size) : pieces.flatten.length = pieces.length * size := by
  induction pieces with
  | nil => simp
  | cons p ps ih =>
    have hp := hsize p List.mem_cons_self
    have hps := ih fun q hq => hsize q (List.mem_cons_of_mem _ hq)
    rw [List.flatten_cons, List.length_append, hp, hps, List.length_cons, Nat.succ_mul]
    omega

/-- Texts that follow an empty one, as in a table of names. -/
theorem holds_nameTable {pieces : List (List UInt8)} {i : Nat} (hi : i < pieces.length)
    (ho : i < (offsetsFrom 1 pieces).length) :
    Holds ([0] ++ pieces.flatten).toByteArray (offsetsFrom 1 pieces)[i] pieces[i] :=
  (holds_append_iff.mp (holds_toByteArray ([0] ++ pieces.flatten))).2.pieces hi ho

/-- Zero bytes up to the next multiple of eight. -/
def padding (length : Nat) : List UInt8 := List.replicate ((8 - length % 8) % 8) 0

theorem add_padding_mod (n : Nat) : (n + (padding n).length) % 8 = 0 := by
  rw [padding, List.length_replicate]
  omega

/-! ## The parts of a file -/

def ImageSection.contents (s : ImageSection) : List UInt8 :=
  if s.noBits then [] else List.replicate s.size.toNat 0

/-- A line of the section header table, without the place of its name. -/
structure Row where
  name : String
  typeCode : Nat
  flags : Nat
  address : Address
  offset : Nat
  size : Nat
  link : Nat
  info : Nat
  entrySize : Nat

def Row.bytes (nameOffset : Nat) (r : Row) : List UInt8 :=
  numberBytes 4 nameOffset ++ numberBytes 4 r.typeCode ++ numberBytes 8 r.flags ++
    numberBytes 8 r.address.toNat ++ numberBytes 8 r.offset ++ numberBytes 8 r.size ++
    numberBytes 4 r.link ++ numberBytes 4 r.info ++ numberBytes 8 8 ++ numberBytes 8 r.entrySize

def Row.header (nameOffset : Nat) (r : Row) : SectionHeader :=
  ⟨nameOffset, r.typeCode, r.flags, r.address, r.offset, r.size⟩

def ImageSection.row (offset : Nat) (s : ImageSection) : Row where
  name := s.name
  typeCode := if s.noBits then 8 else 1
  flags := s.flags.toNat
  address := s.address
  offset := if s.noBits then 0 else offset
  size := s.size.toNat
  link := 0
  info := 0
  entrySize := 0

/-- An entry of the symbol table, for a global symbol with an absolute value. -/
def entryBytes (nameOffset : Nat) (s : NamedSymbol) : List UInt8 :=
  numberBytes 4 nameOffset ++ [0x10, 0] ++ numberBytes 2 0xfff1 ++ numberBytes 8 s.value.toNat ++
    numberBytes 8 0

namespace Image

variable (image : Image)

def contents : List (List UInt8) := image.sections.map ImageSection.contents

def symbolNames : List (List UInt8) := image.symbols.map fun s => closedText s.name

def strtab : List UInt8 := [0] ++ image.symbolNames.flatten

def entries : List (List UInt8) :=
  List.zipWith entryBytes (offsetsFrom 1 image.symbolNames) image.symbols

def symtab : List UInt8 := List.replicate 24 0 ++ image.entries.flatten

def names : List String :=
  image.sections.map ImageSection.name ++ [".symtab", ".strtab", ".shstrtab"]

def nameOffsets : List Nat := offsetsFrom 1 (image.names.map closedText)

def shstrtab : List UInt8 := [0] ++ (image.names.map closedText).flatten

def contentsPadding : List UInt8 := padding (64 + image.contents.flatten.length)

def symtabOffset : Nat := 64 + image.contents.flatten.length + image.contentsPadding.length

def strtabOffset : Nat := image.symtabOffset + image.symtab.length

def shstrtabOffset : Nat := image.strtabOffset + image.strtab.length

def tablePadding : List UInt8 := padding (image.shstrtabOffset + image.shstrtab.length)

def tableOffset : Nat :=
  image.shstrtabOffset + image.shstrtab.length + image.tablePadding.length

def symtabRow : Row where
  name := ".symtab"
  typeCode := 2
  flags := 0
  address := ⟨0⟩
  offset := image.symtabOffset
  size := image.symtab.length
  link := image.sections.length + 2
  info := 1
  entrySize := 24

def nameRow (name : String) (offset size : Nat) : Row where
  name := name
  typeCode := 3
  flags := 0
  address := ⟨0⟩
  offset := offset
  size := size
  link := 0
  info := 0
  entrySize := 0

def rows : List Row :=
  List.zipWith ImageSection.row (offsetsFrom 64 image.contents) image.sections ++
    [image.symtabRow, nameRow ".strtab" image.strtabOffset image.strtab.length,
      nameRow ".shstrtab" image.shstrtabOffset image.shstrtab.length]

/-- The lines of the section header table, each with the place of its name. -/
def placedRows : List (Nat × Row) := image.nameOffsets.zip image.rows

def rowBytes : List (List UInt8) := image.placedRows.map fun p => p.2.bytes p.1

def table : List UInt8 := List.replicate 64 0 ++ image.rowBytes.flatten

def headerCount : Nat := image.sections.length + 4

def header : List UInt8 :=
  [0x7f, 0x45, 0x4c, 0x46, 2, 1, 1, 0] ++ List.replicate 8 0 ++ numberBytes 2 2 ++
    numberBytes 2 0xf3 ++ numberBytes 4 1 ++ numberBytes 8 image.entry.toNat ++ numberBytes 8 0 ++
    numberBytes 8 image.tableOffset ++ numberBytes 4 5 ++ numberBytes 2 64 ++ numberBytes 2 56 ++
    numberBytes 2 0 ++ numberBytes 2 64 ++ numberBytes 2 image.headerCount ++
    numberBytes 2 (image.headerCount - 1)

def fileBytes : List UInt8 :=
  image.header ++ image.contents.flatten ++ image.contentsPadding ++ image.symtab ++ image.strtab ++
    image.shstrtab ++ image.tablePadding ++ image.table

def encode : ByteArray := image.fileBytes.toByteArray

/-- The names have no zero bytes, and all numbers fit into their fields. -/
structure Encodable : Prop where
  sectionNames : ∀ s ∈ image.sections, NulFree s.name ∧ s.name ≠ ".symtab" ∧ s.name ≠ ".strtab"
  symbolNames : ∀ s ∈ image.symbols, NulFree s.name
  few : image.sections.length + 4 ≤ 0xff00
  sectionNameOffsets : ∀ o ∈ image.nameOffsets, o < 2 ^ 32
  symbolNameOffsets : ∀ o ∈ offsetsFrom 1 image.symbolNames, o < 2 ^ 32
  length : image.encode.size < 2 ^ 64

/-! ## What stands where -/

variable {image}

@[simp]
theorem length_header : image.header.length = 64 := by simp [header]

theorem length_of_mem_entries {p : List UInt8} (hp : p ∈ image.entries) : p.length = 24 := by
  obtain ⟨i, hi, rfl⟩ := List.getElem_of_mem hp
  simp [entries, entryBytes]

theorem length_of_mem_rowBytes {p : List UInt8} (hp : p ∈ image.rowBytes) : p.length = 64 := by
  obtain ⟨r, -, rfl⟩ := List.mem_map.mp hp
  simp [Row.bytes]

@[simp]
theorem length_entries : image.entries.length = image.symbols.length := by
  simp [entries, symbolNames]

theorem length_symtab : image.symtab.length = (image.symbols.length + 1) * 24 := by
  rw [symtab, List.length_append, length_flatten_of_forall fun p hp => length_of_mem_entries hp,
    List.length_replicate, length_entries]
  omega

@[simp]
theorem length_names : image.names.length = image.sections.length + 3 := by simp [names]

@[simp]
theorem length_nameOffsets : image.nameOffsets.length = image.sections.length + 3 := by
  simp [nameOffsets]

@[simp]
theorem length_rows : image.rows.length = image.sections.length + 3 := by simp [rows, contents]

@[simp]
theorem length_placedRows : image.placedRows.length = image.sections.length + 3 := by
  simp [placedRows]

@[simp]
theorem length_rowBytes : image.rowBytes.length = image.sections.length + 3 := by simp [rowBytes]

theorem names_eq : image.rows.map Row.name = image.names := by
  have hsections : (List.zipWith ImageSection.row (offsetsFrom 64 image.contents) image.sections).map
      Row.name = image.sections.map ImageSection.name := by
    rw [List.map_zipWith]
    apply List.ext_getElem
    · simp [contents]
    · intro i _ _
      simp [ImageSection.row]
  rw [rows, List.map_append, hsections]
  rfl

/-- Every part of a file stands at its offset. -/
structure Placed (image : Image) : Prop where
  header : Holds image.encode 0 image.header
  contents : Holds image.encode 64 image.contents.flatten
  symtab : Holds image.encode image.symtabOffset image.symtab
  strtab : Holds image.encode image.strtabOffset image.strtab
  shstrtab : Holds image.encode image.shstrtabOffset image.shstrtab
  table : Holds image.encode image.tableOffset image.table

theorem placed (image : Image) : image.Placed := by
  have h := holds_toByteArray image.fileBytes
  change Holds image.encode 0 image.fileBytes at h
  simp only [fileBytes, holds_append_iff, List.length_append, length_header, Nat.zero_add] at h
  obtain ⟨⟨⟨⟨⟨⟨⟨hheader, hcontents⟩, -⟩, hsymtab⟩, hstrtab⟩, hshstrtab⟩, -⟩, htable⟩ := h
  refine ⟨hheader, hcontents, hsymtab, ?_, ?_, ?_⟩
  · simpa [strtabOffset, symtabOffset] using hstrtab
  · simpa [shstrtabOffset, strtabOffset, symtabOffset] using hshstrtab
  · simpa [tableOffset, shstrtabOffset, strtabOffset, symtabOffset] using htable

theorem size_encode : image.encode.size = image.fileBytes.length := List.size_toByteArray

instance : Decidable image.Encodable :=
  decidable_of_iff
    ((∀ s ∈ image.sections, NulFree s.name ∧ s.name ≠ ".symtab" ∧ s.name ≠ ".strtab") ∧
      (∀ s ∈ image.symbols, NulFree s.name) ∧ image.sections.length + 4 ≤ 0xff00 ∧
      (∀ o ∈ image.nameOffsets, o < 2 ^ 32) ∧
      (∀ o ∈ offsetsFrom 1 image.symbolNames, o < 2 ^ 32) ∧ image.fileBytes.length < 2 ^ 64) <| by
    rw [← size_encode]
    exact ⟨fun ⟨hs, ht, few, ho, hp, length⟩ => ⟨hs, ht, few, ho, hp, length⟩,
      fun ⟨hs, ht, few, ho, hp, length⟩ => ⟨hs, ht, few, ho, hp, length⟩⟩

-- From here on only `placed` is used, not the bytes themselves.
attribute [irreducible] encode

end Image

end KernelImage.Elf
