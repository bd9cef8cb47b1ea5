import KernelImage.Boot.Assembly
import KernelImage.Script.Image

/-!
# The build step

Before the kernel is compiled, a build step writes the linker script and the entry file and tells
the build tool about them. It is steered by variables of the environment.
-/

namespace KernelImage

structure BuildStep where
  /-- The directory for generated files. -/
  outputDirectory : String
  /-- The variables of the environment that have a value. -/
  environment : List (String × String)

structure BuildFiles where
  linkerScript : String
  entryFile : String
  /-- The instructions to the build tool. -/
  instructions : String
deriving DecidableEq

namespace BuildStep

def setting? (b : BuildStep) (name : String) : Option String := b.environment.lookup name

/-- The board whose feature is switched on. -/
def board (b : BuildStep) : Board :=
  if (b.setting? "CARGO_FEATURE_BOARD_K210").isSome then .k210 else .qemu

def scriptPath (b : BuildStep) : String := b.outputDirectory ++ "/linker.ld"

/-- Only a build for the kernel's own target is linked by the script. -/
def linkInstructions (b : BuildStep) : List String :=
  if b.setting? "CARGO_CFG_TARGET_ARCH" = some "riscv64" then
    ["cargo:rustc-link-arg=-T" ++ b.scriptPath]
  else
    []

def instructions (b : BuildStep) : List String :=
  ["board: " ++ b.board.name ++ ", linker script: " ++ b.scriptPath,
    "cargo:rerun-if-changed=build.rs",
    "cargo:rerun-if-changed=../linker/src",
    "cargo:rerun-if-env-changed=LOG"] ++ b.linkInstructions

def run (b : BuildStep) : BuildFiles where
  linkerScript := b.board.linkerScript
  entryFile := Assembly.render Boot.entryFile
  instructions := String.join (b.instructions.map fun line => line ++ "\n")

end BuildStep

end KernelImage
