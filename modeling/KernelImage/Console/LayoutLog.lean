import KernelImage.Audit.Report
import KernelImage.Console.Basic

/-! # The layout in the kernel's log -/

namespace KernelImage

def Region.logMessage (r : Region) : Outcome String := do
  let pages ← r.pageCount
  return alignLeft 7 r.output.name ++ " " ++ r.range.text ++ " " ++ toString pages.toNat ++
    " pages " ++ r.access.text

def Layout.logMessages (l : Layout) : Outcome (List String) := do
  let regions ← l.regions.mapM Region.logMessage
  return regions ++
    ["trampoline " ++ l.trampoline.text,
      "boot_stack " ++ l.bootStackRange.text,
      "kernel image " ++ hex l.imageSize.toNat ++ " bytes, ends at " ++ l.ekernel.hex]

/-- Logs where the parts of the running image lie. -/
def Console.logLayout (c : Console) (l : Layout) : Outcome Console := do
  let messages ← l.logMessages
  return messages.foldl (fun c message => c.log .info message) c

end KernelImage
