import KernelImage.Elf.Header

/-!
# The section header table

`File.sectionTable` reads all section headers and checks that what they refer to lies within the
file: the table itself, the section names, and the bytes of every section that has any.
-/

namespace KernelImage.Elf

inductive SectionType where
  | null
  | progBits
  | symTab
  | strTab
  | rela
  | hash
  | dynamic
  | note
  | noBits
  | rel
  | shLib
  | dynSym
  | initArray
  | finiArray
  | preInitArray
  | group
  | symTabIndex
  /-- A type that belongs to a system, a processor or an application. -/
  | specific
deriving DecidableEq

def SectionType.ofCode? : Nat → Option SectionType
  | 0 => some .null
  | 1 => some .progBits
  | 2 => some .symTab
  | 3 => some .strTab
  | 4 => some .rela
  | 5 => some .hash
  | 6 => some .dynamic
  | 7 => some .note
  | 8 => some .noBits
  | 9 => some .rel
  | 10 => some .shLib
  | 11 => some .dynSym
  | 14 => some .initArray
  | 15 => some .finiArray
  | 16 => some .preInitArray
  | 17 => some .group
  | 18 => some .symTabIndex
  | n => if 0x60000000 ≤ n then some .specific else none

structure SectionHeader where
  /-- The place of the name among the section names. -/
  nameOffset : Nat
  typeCode : Nat
  flags : Nat
  address : Address
  offset : Nat
  size : Nat
deriving DecidableEq

namespace SectionHeader

def type? (s : SectionHeader) : Option SectionType := SectionType.ofCode? s.typeCode

/-- The section takes up memory when the image runs. -/
def allocated (s : SectionHeader) : Bool := s.flags.testBit 1

def read32 (bytes : ByteArray) (start : Nat) : Outcome SectionHeader := do
  let nameOffset ← number bytes start 4
  let typeCode ← number bytes (start + 4) 4
  let flags ← number bytes (start + 8) 4
  let address ← number bytes (start + 12) 4
  let offset ← number bytes (start + 16) 4
  let size ← number bytes (start + 20) 4
  return ⟨nameOffset, typeCode, flags, .ofNat address, offset, size⟩

def read64 (bytes : ByteArray) (start : Nat) : Outcome SectionHeader := do
  let nameOffset ← number bytes start 4
  let typeCode ← number bytes (start + 4) 4
  let flags ← number bytes (start + 8) 8
  let address ← number bytes (start + 16) 8
  let offset ← number bytes (start + 24) 8
  let size ← number bytes (start + 32) 8
  return ⟨nameOffset, typeCode, flags, .ofNat address, offset, size⟩

end SectionHeader

/-- A file with its header. -/
structure File where
  bytes : ByteArray
  header : FileHeader

/-- Indices from here on are reserved. -/
def reservedIndices : Nat := 0xff00

/-- The size of a section header, which the table must use as its stride. -/
def sectionHeaderSize : Nat := 64

namespace File

def ofBytes (bytes : ByteArray) : Outcome File := do
  return ⟨bytes, ← FileHeader.read bytes⟩

/-- The offset of section header `i`. -/
def sectionOffset (f : File) (i : Nat) : Nat := f.header.tableOffset + i * f.header.tableStride

/-- The boundary on which section headers must start. -/
def sectionAlignment (f : File) : Nat :=
  match f.header.fileClass with
  | .bits32 => 4
  | .bits64 => 8

def sectionHeader (f : File) (i : Nat) : Outcome SectionHeader := do
  ensure (i < reservedIndices) (.fault .reservedIndex)
  ensure (f.sectionOffset i % f.sectionAlignment = 0) (.fault .misaligned)
  match f.header.fileClass with
  | .bits32 => SectionHeader.read32 f.bytes (f.sectionOffset i)
  | .bits64 => SectionHeader.read64 f.bytes (f.sectionOffset i)

/-- The bytes of a range that must lie within the file. -/
def range (f : File) (offset size : Nat) : Outcome ByteArray := do
  require (HasRange f.bytes offset size) .outsideFile
  return f.bytes.extract offset (offset + size)

/-- Checks the type, the bytes and the name of a section. -/
def checkSection (f : File) (names : ByteArray) (s : SectionHeader) : Outcome Unit :=
  match s.type? with
  | none => reject .invalidSectionType
  | some .null => .ok ()
  | some t => do
    require (t = .noBits ∨ HasRange f.bytes s.offset s.size) .outsideFile
    require (terminator? names s.nameOffset).isSome .sectionName

structure SectionTable where
  /-- The offset of the section names in the file. -/
  namesOffset : Nat
  headers : List SectionHeader

def sectionTable (f : File) : Outcome SectionTable := do
  let count := f.header.sectionCount
  require (count ≠ 0) .noSectionHeaders
  require (f.header.tableStride = sectionHeaderSize) .sectionHeaderSize
  require (HasRange f.bytes f.header.tableOffset (count * sectionHeaderSize)) .outsideFile
  require (f.header.nameTableIndex < count) .nameTableIndex
  let nameTable ← f.sectionHeader f.header.nameTableIndex
  let names ← f.range nameTable.offset nameTable.size
  let headers ← (List.range count).mapM fun i => do
    let s ← f.sectionHeader i
    f.checkSection names s
    return s
  return ⟨nameTable.offset, headers⟩

end File

end KernelImage.Elf
