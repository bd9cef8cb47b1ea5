import KernelImage.Boot.Assembly
import KernelImage.Script.Image

/-!
# The generated files, written out

The linker script of a board depends on it in two numbers, and the entry file not at all.
-/

namespace KernelImage

namespace Board

def baseText : Board → String
  | qemu => "0x80200000"
  | k210 => "0x80020000"

def memoryEndText : Board → String
  | qemu => "0x80800000"
  | k210 => "0x80600000"

def scriptLines (board : Board) : List String :=
  ["OUTPUT_ARCH(riscv)",
    "ENTRY(_start)",
    "BASE_ADDRESS = " ++ board.baseText ++ ";",
    "MEMORY_END = " ++ board.memoryEndText ++ ";",
    "",
    "SECTIONS",
    "\x7b",
    "    . = BASE_ADDRESS;",
    "    skernel = .;",
    "",
    "    stext = .;",
    "    .text : \x7b",
    "        *(.text.entry)",
    "        . = ALIGN(4096);",
    "        strampoline = .;",
    "        *(.text.trampoline);",
    "        . = ALIGN(4096);",
    "        etrampoline = .;",
    "        *(.text .text.*)",
    "    \x7d",
    "",
    "    . = ALIGN(4096);",
    "    etext = .;",
    "    srodata = .;",
    "    .rodata : \x7b",
    "        *(.rodata .rodata.*)",
    "        *(.srodata .srodata.*)",
    "    \x7d",
    "",
    "    . = ALIGN(4096);",
    "    erodata = .;",
    "    sdata = .;",
    "    .data : \x7b",
    "        *(.data .data.*)",
    "        *(.sdata .sdata.*)",
    "    \x7d",
    "",
    "    . = ALIGN(4096);",
    "    edata = .;",
    "    sbss_with_stack = .;",
    "    .bss : \x7b",
    "        *(.bss.stack)",
    "        sbss = .;",
    "        *(.bss .bss.*)",
    "        *(.sbss .sbss.*)",
    "    \x7d",
    "",
    "    . = ALIGN(4096);",
    "    ebss = .;",
    "    ekernel = .;",
    "",
    "    /DISCARD/ : \x7b",
    "        *(.eh_frame*)",
    "        *(.debug*)",
    "        *(.comment*)",
    "    \x7d",
    "\x7d",
    "",
    "ASSERT(skernel == BASE_ADDRESS, \"image does not start at the base address\");",
    "ASSERT(strampoline % 4096 == 0, \"trampoline is not page aligned\");",
    "ASSERT(boot_stack_top - boot_stack == 65536, \"boot stack size mismatch\");",
    "ASSERT(ekernel <= MEMORY_END, \"kernel image exceeds platform memory\");"]

def scriptText (board : Board) : String :=
  String.join (board.scriptLines.map fun line => line ++ "\n")

theorem lines_ofBoard (board : Board) :
    (Script.ofBoard board).flatMap Script.Command.lines = board.scriptLines := by
  cases board <;> decide +kernel

theorem linkerScript_eq (board : Board) : board.linkerScript = board.scriptText := by
  rw [linkerScript, Script.render, lines_ofBoard, scriptText]

end Board

namespace Boot

def entryLines : List String :=
  ["    .section .text.entry",
    "    .globl _start",
    "_start:",
    "    la sp, boot_stack_top",
    "    call rust_main",
    "",
    "    .section .bss.stack",
    "    .balign 4096",
    "    .globl boot_stack",
    "boot_stack:",
    "    .space 65536",
    "    .globl boot_stack_top",
    "boot_stack_top:"]

def entryText : String := String.join (entryLines.map fun line => line ++ "\n")

theorem render_entryFile : Assembly.render entryFile = entryText := by
  have hlines : entryFile.map Assembly.Line.text = entryLines := by decide +kernel
  rw [Assembly.render, entryText, ← hlines, List.map_map]
  rfl

end Boot

end KernelImage
