import KernelImage.Defect
import KernelImage.Memory.Range

/-!
# Image layouts

A layout gives every boundary symbol its address. It is built by asking for one address per
symbol, in order; `Layout.resolve` also accepts look-ups that may fail, and reports the first
symbol without an address.
-/

namespace KernelImage

/-- The boot stack has sixteen pages on every board. -/
def bootStackSize : UInt64 := 4096 * 16

structure Layout where
  skernel : Address
  stext : Address
  strampoline : Address
  etrampoline : Address
  etext : Address
  srodata : Address
  erodata : Address
  sdata : Address
  edata : Address
  sbssWithStack : Address
  bootStack : Address
  bootStackTop : Address
  sbss : Address
  ebss : Address
  ekernel : Address
deriving DecidableEq

namespace Layout

def ofFn (f : Symbol → Address) : Layout where
  skernel := f .skernel
  stext := f .stext
  strampoline := f .strampoline
  etrampoline := f .etrampoline
  etext := f .etext
  srodata := f .srodata
  erodata := f .erodata
  sdata := f .sdata
  edata := f .edata
  sbssWithStack := f .sbssWithStack
  bootStack := f .bootStack
  bootStackTop := f .bootStackTop
  sbss := f .sbss
  ebss := f .ebss
  ekernel := f .ekernel

def get (l : Layout) : Symbol → Address
  | .skernel => l.skernel
  | .stext => l.stext
  | .strampoline => l.strampoline
  | .etrampoline => l.etrampoline
  | .etext => l.etext
  | .srodata => l.srodata
  | .erodata => l.erodata
  | .sdata => l.sdata
  | .edata => l.edata
  | .sbssWithStack => l.sbssWithStack
  | .bootStack => l.bootStack
  | .bootStackTop => l.bootStackTop
  | .sbss => l.sbss
  | .ebss => l.ebss
  | .ekernel => l.ekernel

/-- The layout in which only the address of `s` is changed. -/
def set (l : Layout) (s : Symbol) (a : Address) : Layout :=
  ofFn fun t => if t = s then a else l.get t

/-- The address of the symbol with this name. -/
def address? (l : Layout) (name : String) : Option Address := (Symbol.ofName? name).map l.get

/-! ## Building -/

/-- The layout of a complete set of addresses, or the first symbol that has none. -/
def resolve (lookup : Symbol → Option Address) : Except Defect Layout :=
  match Symbol.all.find? (fun s => (lookup s).isNone) with
  | some s => .error (.missingSymbol s)
  | none => .ok (ofFn fun s => (lookup s).getD default)

section Effects

variable {m : Type → Type} [Monad m]

def ofFnM (f : Symbol → m Address) : m Layout := do
  return ofFn (← Symbol.tabulateM f)

/-- Looks up every symbol once, in order, also after one that has no address. -/
def resolveM (lookup : Symbol → m (Option Address)) : m (Except Defect Layout) := do
  return resolve (← Symbol.tabulateM lookup)

end Effects

/-! ## Parts of the image -/

/-- The trampoline, which is mapped into every address space. -/
def trampoline (l : Layout) : AddressRange := ⟨l.strampoline, l.etrampoline⟩

def bootStackRange (l : Layout) : AddressRange := ⟨l.bootStack, l.bootStackTop⟩

/-- The part that is cleared at boot. The boot stack, then in use, lies before it. -/
def clearedRange (l : Layout) : AddressRange := ⟨l.sbss, l.ebss⟩

def imageRange (l : Layout) : AddressRange := ⟨l.skernel, l.ekernel⟩

def imageSize (l : Layout) : UInt64 := l.imageRange.size

end Layout

end KernelImage
