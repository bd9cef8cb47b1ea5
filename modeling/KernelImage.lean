import KernelImage.Audit.Report
import KernelImage.Boot.OfLayout
import KernelImage.Build
import KernelImage.Command.Run
import KernelImage.Console.LayoutLog
import KernelImage.Layout.Plan
import KernelImage.Main
import KernelImage.Proofs.Audit.Basic
import KernelImage.Proofs.Audit.Bounds
import KernelImage.Proofs.Audit.Entries
import KernelImage.Proofs.Audit.Faults
import KernelImage.Proofs.Audit.Metadata
import KernelImage.Proofs.Audit.Reads
import KernelImage.Proofs.Audit.Report
import KernelImage.Proofs.Audit.RoundTrip
import KernelImage.Proofs.Audit.Sound
import KernelImage.Proofs.Audit.SymbolOrder
import KernelImage.Proofs.Audit.SymbolTable
import KernelImage.Proofs.Audit.Undefined
import KernelImage.Proofs.Boot.Assembly
import KernelImage.Proofs.Boot.Hart
import KernelImage.Proofs.Boot.OfLayout
import KernelImage.Proofs.Boot.Placement
import KernelImage.Proofs.Boot.Steps
import KernelImage.Proofs.Command.ExitCode
import KernelImage.Proofs.Command.Run
import KernelImage.Proofs.Defect
import KernelImage.Proofs.Elf.Agreement
import KernelImage.Proofs.Elf.Bytes
import KernelImage.Proofs.Elf.Decode
import KernelImage.Proofs.Elf.Encode
import KernelImage.Proofs.Elf.Header
import KernelImage.Proofs.Elf.Section
import KernelImage.Proofs.Elf.Symbols
import KernelImage.Proofs.Layout.Basic
import KernelImage.Proofs.Layout.Check
import KernelImage.Proofs.Layout.Defects
import KernelImage.Proofs.Layout.Lookup
import KernelImage.Proofs.Layout.Partition
import KernelImage.Proofs.Layout.Plan
import KernelImage.Proofs.Layout.Rigid
import KernelImage.Proofs.Layout.Sizes
import KernelImage.Proofs.Layout.ZeroedMemory
import KernelImage.Proofs.Memory.PageCover
import KernelImage.Proofs.Memory.PageRounding
import KernelImage.Proofs.Script.Lexer
import KernelImage.Proofs.Script.Link
import KernelImage.Proofs.Script.Parser
import KernelImage.Proofs.Script.Plan
import KernelImage.Proofs.Script.Slots
import KernelImage.Proofs.Script.Text
import KernelImage.Proofs.Script.Tokens
import KernelImage.Proofs.Text.Words
