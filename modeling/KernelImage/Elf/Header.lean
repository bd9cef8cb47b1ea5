import KernelImage.Elf.Bytes

/-!
# The header of an ELF file

Both file classes are read. Every file is little-endian here: the byte that names the encoding is
ignored, as are the version and the ABI.
-/

namespace KernelImage.Elf

/-- What is wrong with the form of a file. -/
inductive Malformed where
  | truncatedHeader
  | noMagic
  | invalidClass
  | noSectionHeaders
  | sectionHeaderSize
  | outsideFile
  | nameTableIndex
  | invalidSectionType
  | sectionName
  | noSymbolTable
  | brokenSymbolTable
  | notSymbols64
deriving DecidableEq

def Malformed.text : Malformed → String
  | truncatedHeader => "truncated elf header"
  | noMagic => "Did not find ELF magic number"
  | invalidClass => "Invalid ELF class"
  | noSectionHeaders => "no section headers"
  | sectionHeaderSize => "unexpected section header size"
  | outsideFile => "section data lies outside the file"
  | nameTableIndex => "section name table index out of range"
  | invalidSectionType => "Invalid sh type"
  | sectionName => "section name out of range"
  | noSymbolTable => "no .symtab section"
  | brokenSymbolTable => "malformed symbol table"
  | notSymbols64 => "expected a 64-bit symbol table"

def Malformed.failure (m : Malformed) : Failure := .defect (.malformedElf m.text)

def reject {α : Type} (m : Malformed) : Outcome α := .error m.failure

/-- Goes on only if the file meets the condition. -/
def require (condition : Prop) [Decidable condition] (m : Malformed) : Outcome Unit :=
  ensure condition m.failure

inductive FileClass where
  | bits32
  | bits64
deriving DecidableEq

structure FileHeader where
  fileClass : FileClass
  entry : Address
  /-- The offset of the section header table. -/
  tableOffset : Nat
  /-- The distance from one section header to the next. -/
  tableStride : Nat
  sectionCount : Nat
  /-- The index of the section that holds the section names. -/
  nameTableIndex : Nat
deriving DecidableEq

/-- A file must have room for a 64-bit header, even if its own header is the 32-bit one. -/
def fileHeaderSize : Nat := 64

namespace FileHeader

def read32 (bytes : ByteArray) : Outcome FileHeader := do
  let entry ← number bytes 24 4
  let tableOffset ← number bytes 32 4
  let tableStride ← number bytes 46 2
  let sectionCount ← number bytes 48 2
  let nameTableIndex ← number bytes 50 2
  return ⟨.bits32, .ofNat entry, tableOffset, tableStride, sectionCount, nameTableIndex⟩

def read64 (bytes : ByteArray) : Outcome FileHeader := do
  let entry ← number bytes 24 8
  let tableOffset ← number bytes 40 8
  let tableStride ← number bytes 58 2
  let sectionCount ← number bytes 60 2
  let nameTableIndex ← number bytes 62 2
  return ⟨.bits64, .ofNat entry, tableOffset, tableStride, sectionCount, nameTableIndex⟩

/-- The bytes 7f 45 4c 46 at the start of a file, read as a number. -/
def magic : Nat := 0x464c457f

def read (bytes : ByteArray) : Outcome FileHeader := do
  require (fileHeaderSize ≤ bytes.size) .truncatedHeader
  let start ← number bytes 0 4
  require (start = magic) .noMagic
  match ← number bytes 4 1 with
  | 1 => read32 bytes
  | 2 => read64 bytes
  | _ => reject .invalidClass

end FileHeader

end KernelImage.Elf
