import KernelImage.Elf.Section

/-!
# The symbols of a file

The symbols are the entries of the first section named `.symtab`, with names from the first section
named `.strtab`. Entries without a readable name are left out.
-/

namespace KernelImage.Elf

/-- A section with its name. -/
structure Section where
  name : String
  header : SectionHeader
deriving DecidableEq

/-- The first section with this name. -/
def findSection? (sections : List Section) (name : String) : Option SectionHeader :=
  (sections.find? fun s => s.name = name).map Section.header

structure SymbolEntry where
  /-- The place of the name among the symbol names. -/
  nameOffset : Nat
  /-- The section that defines the symbol. -/
  sectionIndex : Nat
  value : Address
deriving DecidableEq

def symbolEntrySize : Nat := 24

def SymbolEntry.read (bytes : ByteArray) (start : Nat) : Outcome SymbolEntry := do
  let nameOffset ← number bytes start 4
  let sectionIndex ← number bytes (start + 6) 2
  let value ← number bytes (start + 8) 8
  return ⟨nameOffset, sectionIndex, .ofNat value⟩

/-- The size of an entry, for the types whose sections hold a sequence of entries. -/
def entrySize? : FileClass → SectionType → Option Nat
  | .bits64, .symTab => some 24
  | .bits64, .dynSym => some 24
  | .bits64, .rela => some 24
  | .bits64, .rel => some 16
  | .bits64, .dynamic => some 16
  | .bits64, .initArray => some 8
  | .bits64, .finiArray => some 8
  | .bits64, .preInitArray => some 8
  | .bits32, .symTab => some 16
  | .bits32, .dynSym => some 16
  | .bits32, .rela => some 12
  | .bits32, .rel => some 8
  | .bits32, .dynamic => some 8
  | .bits32, .initArray => some 4
  | .bits32, .finiArray => some 4
  | .bits32, .preInitArray => some 4
  | _, .symTabIndex => some 4
  | _, _ => none

/-- Why the contents of a section of this type and size cannot be read, if they cannot. -/
def contentsFault? (c : FileClass) (t : SectionType) (size : Nat) : Option Fault :=
  match entrySize? c t, t, c with
  | some n, _, _ => if size % n = 0 then none else some .brokenEntries
  | none, .group, _ => if size < 4 ∨ (size - 4) % 4 ≠ 0 then some .brokenEntries else none
  | none, .hash, _ => if size < 12 then some .brokenEntries else none
  | none, .note, .bits64 => if size < 12 then some .brokenEntries else none
  | none, .note, .bits32 => some .unsupportedType
  | none, _, _ => none

/-- A symbol with its name. -/
structure NamedSymbol where
  name : String
  value : Address
deriving DecidableEq

/-- The symbol of an entry, or `none` if no terminated name stands at its place. -/
def SymbolEntry.named (names : ByteArray) (e : SymbolEntry) : Outcome (Option NamedSymbol) :=
  match terminator? names e.nameOffset with
  | none => .ok none
  | some _ => do return some ⟨← stringAt names e.nameOffset, e.value⟩

/-- The value of the last symbol with this name. -/
def lastValue? (symbols : List NamedSymbol) (name : String) : Option Address :=
  (symbols.filter fun s => s.name = name).getLast?.map NamedSymbol.value

namespace File

/-- The symbol names. A section of another type than a string table holds none. -/
def symbolNames (f : File) (sections : List Section) : Outcome ByteArray :=
  match findSection? sections ".strtab" with
  | none => .ok .empty
  | some s => do
    let names ← f.range s.offset s.size
    return if s.type? = some .strTab then names else .empty

/-- The entries of a symbol table that starts on an eight-byte boundary. -/
def symbolEntries (f : File) (table : SectionHeader) : Outcome (List SymbolEntry) :=
  match f.header.fileClass, table.type? with
  | .bits64, some .symTab =>
    (List.range (table.size / symbolEntrySize)).mapM fun i =>
      SymbolEntry.read f.bytes (table.offset + i * symbolEntrySize)
  | c, some t =>
    match contentsFault? c t table.size with
    | some fault => .fault fault
    | none => reject .notSymbols64
  | _, none => reject .invalidSectionType

def symbols (f : File) (sections : List Section) : Outcome (List NamedSymbol) :=
  match findSection? sections ".symtab" with
  | none => reject .noSymbolTable
  | some table => do
    require (table.size % symbolEntrySize = 0 ∧ table.offset % 8 = 0) .brokenSymbolTable
    let names ← f.symbolNames sections
    let entries ← f.symbolEntries table
    let named ← entries.mapM (SymbolEntry.named names)
    return named.filterMap id

end File

end KernelImage.Elf
