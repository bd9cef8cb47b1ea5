import KernelImage.Audit.Report
import KernelImage.Proofs.Audit.Basic
import KernelImage.Proofs.Layout.Partition

/-!
# What a report says

`Audit.reportText` writes the report on an image out, with texts and numbers of its own: all sums are
exact, and the number of pages of a region comes from its ends. The report on an accepted image is
just this text.
-/

namespace KernelImage.Audit

def hexText (n : Nat) : String := "0x" ++ String.ofList (Nat.toDigits 16 n)

def intervalText (start stop : Nat) : String :=
  "[" ++ hexText start ++ ", " ++ hexText stop ++ ")"

def boardText : Board → String
  | .qemu => "qemu"
  | .k210 => "k210"

/-- Names stand in a column of sixteen characters. The end of a section is at most the highest address. -/
def loadedText (s : SectionSummary) : String :=
  "    " ++ String.ofList (s.name.toList.rightpad 16 ' ') ++ " " ++
    intervalText s.address.toNat (min (s.address.toNat + s.size.toNat) (2 ^ 64 - 1))

def regionText (name : String) (start stop : Address) (rights : String) : String :=
  "    " ++ name ++ " " ++ intervalText start.toNat stop.toNat ++ " " ++
    toString ((stop.toNat - start.toNat) / 4096) ++ " pages " ++ rights

def reportedLines (a : Audit) (path : String) : List String :=
  let l := a.layout
  [path ++ ": entry " ++ hexText a.entry.toNat ++ ", board " ++ boardText a.board,
    "loaded sections:"] ++
  (a.sections.filter fun s => s.allocated).map loadedText ++
  ["regions:",
    regionText ".text" l.stext l.etext "R | X",
    regionText ".rodata" l.srodata l.erodata "R",
    regionText ".data" l.sdata l.edata "R | W",
    regionText ".bss" l.sbssWithStack l.ebss "R | W",
    "trampoline " ++ intervalText l.strampoline.toNat l.etrampoline.toNat,
    "boot_stack " ++ intervalText l.bootStack.toNat l.bootStackTop.toNat ++ " 65536 bytes",
    "image " ++ hexText (l.ekernel.toNat - l.skernel.toNat) ++ " bytes, ekernel " ++
      hexText l.ekernel.toNat ++ ": ok"]

def reportText (a : Audit) (path : String) : String :=
  String.join ((reportedLines a path).map fun line => line ++ "\n")

/-! ## The lines -/

theorem alignLeft_eq (n : Nat) (text : String) :
    alignLeft n text = String.ofList (text.toList.rightpad n ' ') := by
  rw [alignLeft, blanks, List.rightpad, String.ofList_append, String.ofList_toList,
    String.length_toList]

theorem sectionLine_eq (s : SectionSummary) : sectionLine s = loadedText s := by
  rw [sectionLine, loadedText, alignLeft_eq, ← Address.toNat_offsetOrTop]
  rfl

theorem regionLine_eq_ok {r : Region} (hle : r.range.start ≤ r.range.stop)
    (haligned : r.range.PageAligned) :
    regionLine r =
      .ok (regionText r.output.name r.range.start r.range.stop r.access.text) := by
  obtain ⟨n, -, hcount, hsize⟩ := AddressRange.exists_fillsPages hle haligned
  have hn : n.toNat = (r.range.stop.toNat - r.range.start.toNat) / 4096 := by
    rw [AddressRange.toNat_size] at hsize
    omega
  rw [regionLine, Region.pageCount, hcount, regionText, ← hn]
  rfl

theorem mapM_regionLine {l : Layout} {board : Board} (h : l.Seamless board) :
    l.regions.mapM regionLine = .ok
      [regionText ".text" l.stext l.etext "R | X",
        regionText ".rodata" l.srodata l.erodata "R",
        regionText ".data" l.sdata l.edata "R | W",
        regionText ".bss" l.sbssWithStack l.ebss "R | W"] := by
  rw [mapM_eq_ok_map fun r hr => regionLine_eq_ok (h.region_ordered hr) (h.region_aligned hr)]
  rfl

/-! ## The whole report -/

variable {bytes : ByteArray} {board : Board} {a : Audit}

theorem bootStackLine_eq {l : Layout} (h : l.Seamless board) :
    "boot_stack " ++ l.bootStackRange.text ++ " " ++ toString l.bootStackRange.size.toNat ++ " bytes" =
      "boot_stack " ++ intervalText l.bootStack.toNat l.bootStackTop.toNat ++ " 65536 bytes" := by
  have hsize : l.bootStackRange.size.toNat = 65536 := by
    rw [AddressRange.toNat_size]
    change l.bootStackTop.toNat - l.bootStack.toNat = 65536
    rw [h.bootStackTop]
    omega
  rw [hsize, String.append_assoc, String.append_assoc]
  rfl

theorem reportLines_eq_ok (h : a.layout.Seamless board) (path : String) :
    a.reportLines path = .ok (reportedLines a path) := by
  have hloaded : a.loaded.map sectionLine =
      (a.sections.filter fun s => s.allocated).map loadedText :=
    List.map_congr_left fun s _ => sectionLine_eq s
  have himage : a.layout.imageSize.toNat = a.layout.ekernel.toNat - a.layout.skernel.toNat :=
    AddressRange.toNat_size _
  have hboard : a.board.name = boardText a.board := by cases a.board <;> rfl
  rw [reportLines, mapM_regionLine h, ok_bind, hloaded, bootStackLine_eq h, himage, hboard]
  simp only [List.append_assoc]
  rfl

theorem report_eq_ok (h : ofImage bytes board = .ok a) (path : String) :
    a.report path = .ok (reportText a path) := by
  rw [report, reportLines_eq_ok (obeys_of_ofImage h).seamless, ok_bind]
  rfl

end KernelImage.Audit
