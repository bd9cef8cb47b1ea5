import KernelImage.Layout.Plan
import KernelImage.Proofs.Layout.Plan
import KernelImage.Proofs.Script.Slots

/-!
# The linker script of a board gives the planned addresses

Following the script, the location counter meets the boundaries at the addresses of `Layout.planned`.
-/

namespace KernelImage.Script

/-! ## The boot stack -/

def bootStackSection : InputSection :=
  ⟨".bss.stack", [.align pageSize.toNat, .global Symbol.bootStack.name, .label Symbol.bootStack.name,
    .space bootStackSize.toNat, .global Symbol.bootStackTop.name, .label Symbol.bootStackTop.name,
    .blank]⟩

theorem stackSections_entryFile : stackSections (Boot.entryFile ++ [.blank]) = [bootStackSection] :=
  rfl

theorem emitAll_bootStackSection (s : LinkState) :
    s.emitAll [bootStackSection] =
      { s with
        here := roundUp s.here + bootStackSize.toNat
        symbols := (Symbol.bootStackTop.name, roundUp s.here + bootStackSize.toNat) ::
          (Symbol.bootStack.name, roundUp s.here) :: s.symbols } :=
  rfl

/-! ## One place -/

section

def NoStack (objects : List (String × Nat)) : Prop := ∀ o ∈ objects, Slot.of? o.1 ≠ some .stack

variable {objects : List (String × Nat)} {a : Nat} {symbols : List (String × Nat)}
  {done rest : List Slot} {t : Slot}

/-- A link with these objects and the boot stack, after some places have got their sections. -/
def linking (objects : List (String × Nat)) (a : Nat) (symbols : List (String × Nat))
    (done : List Slot) : LinkState :=
  ⟨a, symbols, pendingAfter (objects.map InputSection.ofSize ++ [bootStackSection]) done⟩

theorem of?_bootStackSection : Slot.of? bootStackSection.name = some .stack := by decide

theorem linking_nil : linking objects a symbols [] =
    ⟨a, symbols, objects.map InputSection.ofSize ++ [bootStackSection]⟩ := by
  simp [linking, pendingAfter]

theorem place_linking (h : Slot.all = done ++ t :: rest) (ht : t ∉ done) (hstack : t ≠ .stack) :
    (linking objects a symbols done).place t.patterns =
      linking objects (a + totalSize objects t) symbols (done ++ [t]) := by
  have hne : Slot.of? bootStackSection.name ≠ some t := by
    rw [of?_bootStackSection]
    exact fun heq => hstack (Option.some.inj heq).symm
  rw [place_patterns rfl h ht, List.filter_append, filter_map_ofSize,
    List.filter_cons_of_neg (by simpa using hne), List.filter_nil, List.append_nil, emitAll_ofSize]
  rfl

theorem place_linking_stack (hobjects : NoStack objects) (h : Slot.all = done ++ .stack :: rest)
    (ht : .stack ∉ done) :
    (linking objects a symbols done).place Slot.stack.patterns =
      linking objects (roundUp a + bootStackSize.toNat)
        ((Symbol.bootStackTop.name, roundUp a + bootStackSize.toNat) ::
          (Symbol.bootStack.name, roundUp a) :: symbols) (done ++ [.stack]) := by
  have hnone : (objects.filter fun o => Slot.of? o.1 = some .stack) = [] := by
    rw [List.filter_eq_nil_iff]
    intro o ho
    simpa using hobjects o ho
  rw [place_patterns rfl h ht, List.filter_append, filter_map_ofSize, hnone,
    List.filter_cons_of_pos (by simpa using of?_bootStackSection), List.filter_nil, List.map_nil,
    List.nil_append, emitAll_bootStackSection]
  rfl

/-! ## One statement -/

theorem foldlM_place (h : Slot.all = done ++ t :: rest) (ht : t ∉ done) (hstack : t ≠ .stack)
    (semicolon : Bool) (body : List Statement) :
    (.place t.patterns semicolon :: body).foldlM Statement.run (linking objects a symbols done) =
      body.foldlM Statement.run
        (linking objects (a + totalSize objects t) symbols (done ++ [t])) := by
  rw [List.foldlM_cons, Statement.run, place_linking h ht hstack, Option.bind_eq_bind,
    Option.bind_some]

theorem foldlM_alignToPage (body : List Statement) :
    (alignToPage :: body).foldlM Statement.run (linking objects a symbols done) =
      body.foldlM Statement.run (linking objects (roundUp a) symbols done) :=
  rfl

theorem foldlM_mark (s : Symbol) (body : List Statement) :
    (mark s :: body).foldlM Statement.run (linking objects a symbols done) =
      body.foldlM Statement.run (linking objects a ((s.name, a) :: symbols) done) :=
  rfl

/-! ## One part -/

theorem run_boundary (s t : Symbol) :
    (boundary s t).foldlM Part.run (linking objects a symbols done) =
      some (linking objects (roundUp a) ((t.name, roundUp a) :: (s.name, roundUp a) :: symbols)
        done) :=
  rfl

theorem run_textSection :
    textSection.run (linking objects a symbols []) =
      let strampoline := roundUp (a + totalSize objects .entry)
      let etrampoline := roundUp (strampoline + totalSize objects .trampoline)
      some (linking objects (etrampoline + totalSize objects .text)
        ((Symbol.etrampoline.name, etrampoline) :: (Symbol.strampoline.name, strampoline) :: symbols)
        [.entry, .trampoline, .text]) := by
  change List.foldlM Statement.run _ [.place Slot.entry.patterns false, alignToPage,
    mark .strampoline, .place Slot.trampoline.patterns true, alignToPage, mark .etrampoline,
    .place Slot.text.patterns false] = _
  rw [foldlM_place rfl (by decide) (by decide), foldlM_alignToPage, foldlM_mark,
    foldlM_place rfl (by decide) (by decide), foldlM_alignToPage, foldlM_mark,
    foldlM_place rfl (by decide) (by decide)]
  rfl

theorem run_rodataSection :
    rodataSection.run (linking objects a symbols [.entry, .trampoline, .text]) =
      some (linking objects (a + (totalSize objects .rodata + totalSize objects .srodata)) symbols
        [.entry, .trampoline, .text, .rodata, .srodata]) := by
  change List.foldlM Statement.run _
    [.place Slot.rodata.patterns false, .place Slot.srodata.patterns false] = _
  rw [foldlM_place rfl (by decide) (by decide), foldlM_place rfl (by decide) (by decide),
    Nat.add_assoc]
  rfl

theorem run_dataSection :
    dataSection.run (linking objects a symbols [.entry, .trampoline, .text, .rodata, .srodata]) =
      some (linking objects (a + (totalSize objects .data + totalSize objects .sdata)) symbols
        [.entry, .trampoline, .text, .rodata, .srodata, .data, .sdata]) := by
  change List.foldlM Statement.run _
    [.place Slot.data.patterns false, .place Slot.sdata.patterns false] = _
  rw [foldlM_place rfl (by decide) (by decide), foldlM_place rfl (by decide) (by decide),
    Nat.add_assoc]
  rfl

theorem run_bssSection (hobjects : NoStack objects) :
    bssSection.run (linking objects a symbols
        [.entry, .trampoline, .text, .rodata, .srodata, .data, .sdata]) =
      let bootStackTop := roundUp a + bootStackSize.toNat
      some (linking objects (bootStackTop + (totalSize objects .bss + totalSize objects .sbss))
        ((Symbol.sbss.name, bootStackTop) :: (Symbol.bootStackTop.name, bootStackTop) ::
          (Symbol.bootStack.name, roundUp a) :: symbols) Slot.all) := by
  change List.foldlM Statement.run _ [.place Slot.stack.patterns false, mark .sbss,
    .place Slot.bss.patterns false, .place Slot.sbss.patterns false] = _
  rw [List.foldlM_cons, Statement.run, place_linking_stack hobjects rfl (by decide),
    Option.bind_eq_bind, Option.bind_some, foldlM_mark, foldlM_place rfl (by decide) (by decide),
    foldlM_place rfl (by decide) (by decide), Nat.add_assoc]
  rfl

theorem run_discardSection (s : LinkState) :
    ∃ pending, [.statement .blank, discardSection].foldlM Part.run s =
      some { s with pending := pending } :=
  ⟨_, rfl⟩

end

/-! ## A whole script -/

/-- Objects with sections of the given sizes, split and ordered in any way. -/
structure Inputs (sizes : InputSizes) where
  /-- The sections with their names and sizes. -/
  objects : List (String × Nat)
  noStack : NoStack objects
  entry : totalSize objects .entry = sizes.entry.toNat
  trampoline : totalSize objects .trampoline = sizes.trampoline.toNat
  text : totalSize objects .text = sizes.text.toNat
  rodata : totalSize objects .rodata + totalSize objects .srodata = sizes.rodata.toNat
  data : totalSize objects .data + totalSize objects .sdata = sizes.data.toNat
  bss : totalSize objects .bss + totalSize objects .sbss = sizes.bss.toNat

theorem of?_base (t : Slot) : Slot.of? t.base = some t := by cases t <;> decide

/-- One section for every size. -/
def Inputs.single (sizes : InputSizes) : Inputs sizes where
  objects := [(Slot.entry.base, sizes.entry.toNat), (Slot.trampoline.base, sizes.trampoline.toNat),
    (Slot.text.base, sizes.text.toNat), (Slot.rodata.base, sizes.rodata.toNat),
    (Slot.data.base, sizes.data.toNat), (Slot.bss.base, sizes.bss.toNat)]
  noStack := by simp [NoStack, of?_base]
  entry := by simp [totalSize, of?_base]
  trampoline := by simp [totalSize, of?_base]
  text := by simp [totalSize, of?_base]
  rodata := by simp [totalSize, of?_base]
  data := by simp [totalSize, of?_base]
  bss := by simp [totalSize, of?_base]

instance (sizes : InputSizes) : Inhabited (Inputs sizes) := ⟨.single sizes⟩

variable {board : Board} {sizes : InputSizes}

/-- The constants at the head of the script, the last one first. -/
def constants (board : Board) : List (String × Nat) :=
  [("MEMORY_END", board.memoryEnd.toNat), ("BASE_ADDRESS", board.base.toNat)]

/-- The boundaries are defined in their order. -/
def plannedSymbols (board : Board) (sizes : InputSizes) : List (String × Nat) :=
  Symbol.all.reverse.map (fun s => (s.name, Layout.planned board sizes s)) ++ constants board

def head : List Part :=
  [.statement (.moveTo (.name "BASE_ADDRESS")), .statement (mark .skernel), .statement .blank,
    .statement (mark .stext)]

theorem run_head {objects : List (String × Nat)} :
    head.foldlM Part.run (linking objects 0 (constants board) []) =
      some (linking objects board.base.toNat ((Symbol.stext.name, board.base.toNat) ::
        (Symbol.skernel.name, board.base.toNat) :: constants board) []) :=
  rfl

/-- All parts before the sections that are thrown away. -/
def regions : List Part :=
  head ++ [textSection] ++ boundary .etext .srodata ++ [rodataSection] ++
    boundary .erodata .sdata ++ [dataSection] ++ boundary .edata .sbssWithStack ++ [bssSection] ++
    boundary .ebss .ekernel

theorem sections_eq_append : sections = regions ++ [.statement .blank, discardSection] := rfl

theorem run_regions (board : Board) (inputs : Inputs sizes) :
    regions.foldlM Part.run (linking inputs.objects 0 (constants board) []) =
      some (linking inputs.objects (Layout.planned board sizes .ekernel)
        (plannedSymbols board sizes) Slot.all) := by
  rw [regions]
  -- Without the option the kernel would check the steps by running the whole script again.
  simp -implicitDefEqProofs only [List.foldlM_append, List.foldlM_cons, List.foldlM_nil,
    Option.bind_eq_bind, Option.bind_some, Option.pure_def, Option.bind_fun_some, run_head,
    run_boundary, run_textSection, run_rodataSection, run_dataSection,
    run_bssSection inputs.noStack, inputs.entry, inputs.trampoline, inputs.text, inputs.rodata,
    inputs.data, inputs.bss, roundUp_roundUp]
  rfl

theorem run_sections (board : Board) (inputs : Inputs sizes) :
    ∃ pending, sections.foldlM Part.run (linking inputs.objects 0 (constants board) []) =
      some ⟨Layout.planned board sizes .ekernel, plannedSymbols board sizes, pending⟩ := by
  obtain ⟨pending, hend⟩ := run_discardSection (linking inputs.objects
    (Layout.planned board sizes .ekernel) (plannedSymbols board sizes) Slot.all)
  refine ⟨pending, ?_⟩
  rw [sections_eq_append, List.foldlM_append, run_regions, Option.bind_eq_bind, Option.bind_some,
    hend]
  rfl

/-! ## Requirements -/

section

variable {s : LinkState} {left right : Expr} {a b : Nat}

theorem value?_mod (ha : left.value? s = some a) :
    (Expr.binary .mod left (.decimal pageSize.toNat)).value? s = some (a % 4096) := by
  rw [Expr.value?, ha]
  rfl

theorem value?_sub (hb : left.value? s = some (a + b)) (ha : right.value? s = some a) :
    (Expr.binary .sub left right).value? s = some b := by
  rw [Expr.value?, hb, ha]
  simp [Operator.result?]

theorem foldlM_require_eq (ha : left.value? s = some a) (hb : right.value? s = some b)
    (message : String) (checks : List Bool) (commands : List Command) :
    (.require (.binary .eq left right) message :: commands).foldlM Command.run ⟨s, checks⟩ =
      commands.foldlM Command.run ⟨s, checks ++ [decide (a = b)]⟩ := by
  have hvalue : (Expr.binary .eq left right).value? s = some (if a = b then 1 else 0) := by
    rw [Expr.value?, ha, hb]
    rfl
  rw [List.foldlM_cons, Command.run, hvalue]
  by_cases h : a = b <;> simp [h]

theorem foldlM_require_le (ha : left.value? s = some a) (hb : right.value? s = some b)
    (message : String) (checks : List Bool) (commands : List Command) :
    (.require (.binary .le left right) message :: commands).foldlM Command.run ⟨s, checks⟩ =
      commands.foldlM Command.run ⟨s, checks ++ [decide (a ≤ b)]⟩ := by
  have hvalue : (Expr.binary .le left right).value? s = some (if a ≤ b then 1 else 0) := by
    rw [Expr.value?, ha, hb]
    rfl
  rw [List.foldlM_cons, Command.run, hvalue]
  by_cases h : a ≤ b <;> simp [h]

end

theorem value?_name {s : LinkState} (h : s.symbols = plannedSymbols board sizes) (b : Symbol) :
    s.value? b.name = some (Layout.planned board sizes b) := by
  rw [LinkState.value?, h]
  cases b <;> rfl

theorem run_requirements {s : LinkState} (h : s.symbols = plannedSymbols board sizes) :
    requirements.foldlM Command.run ⟨s, []⟩ = some ⟨s, [true, true, true,
      decide (Layout.planned board sizes .ekernel ≤ board.memoryEnd.toNat)]⟩ := by
  have hname (b : Symbol) :
      (Expr.name b.name).value? s = some (Layout.planned board sizes b) := value?_name h b
  have hbase : (Expr.name "BASE_ADDRESS").value? s = some board.base.toNat := by
    rw [Expr.value?, LinkState.value?, h]
    rfl
  have hmemory : (Expr.name "MEMORY_END").value? s = some board.memoryEnd.toNat := by
    rw [Expr.value?, LinkState.value?, h]
    rfl
  have hskernel : Layout.planned board sizes .skernel = board.base.toNat := rfl
  have hstack : Layout.planned board sizes .bootStackTop =
      Layout.planned board sizes .bootStack + bootStackSize.toNat := rfl
  have hmod := value?_mod (hname .strampoline)
  rw [Layout.planned_mod .strampoline (by decide)] at hmod
  have hsub := value?_sub (hstack ▸ hname .bootStackTop) (hname .bootStack)
  rw [requirements, foldlM_require_eq (hname _) hbase, foldlM_require_eq hmod rfl,
    foldlM_require_eq hsub rfl, foldlM_require_le (hname _) hmemory, hskernel]
  simp

/-! ## The link of a board's script -/

def Inputs.sections (inputs : Inputs sizes) : List InputSection :=
  inputs.objects.map InputSection.ofSize

def preamble (board : Board) : List Command :=
  [.outputArch "riscv", .entry Boot.entryName,
    .define "BASE_ADDRESS" (.hexadecimal board.base.toNat),
    .define "MEMORY_END" (.hexadecimal board.memoryEnd.toNat), .blank]

theorem run_preamble (board : Board) (pending : List InputSection) :
    (preamble board).foldlM Command.run ⟨⟨0, [], pending⟩, []⟩ =
      some ⟨⟨0, constants board, pending⟩, []⟩ :=
  rfl

theorem ofBoard_eq_append (board : Board) :
    ofBoard board = preamble board ++ (.sections sections :: .blank :: requirements) :=
  rfl

theorem valid_ofBoard (board : Board) : ∀ c ∈ ofBoard board, c.Valid := by
  cases board <;> decide

theorem valid_entryFile : ∀ l ∈ Boot.entryFile, l.Valid := by decide

theorem foldlM_sections {parts : List Part} {s t : LinkState} (h : parts.foldlM Part.run s = some t)
    (checks : List Bool) (commands : List Command) :
    (.sections parts :: .blank :: commands).foldlM Command.run ⟨s, checks⟩ =
      commands.foldlM Command.run ⟨t, checks⟩ := by
  rw [List.foldlM_cons, Command.run, h]
  rfl

theorem link_linkerScript (board : Board) (inputs : Inputs sizes) :
    ∃ l, link board.linkerScript (Assembly.render Boot.entryFile) inputs.sections = some l ∧
      l.state.symbols = plannedSymbols board sizes ∧
      l.checks = [true, true, true,
        decide (Layout.planned board sizes .ekernel ≤ board.memoryEnd.toNat)] := by
  obtain ⟨pending, hsections⟩ := run_sections board inputs
  rw [Board.linkerScript, link_render (valid_ofBoard board) valid_entryFile,
    stackSections_entryFile, ofBoard_eq_append, List.foldlM_append, run_preamble,
    Option.bind_eq_bind, Option.bind_some, Inputs.sections, ← linking_nil,
    foldlM_sections hsections, run_requirements rfl]
  exact ⟨_, rfl, rfl, rfl⟩

/--
The boundaries get the addresses of the planned layout, and there is no plan exactly when one of the
addresses does not fit into 64 bits. The linker's requirements then tell whether the layout obeys
every rule.
-/
theorem link_linkerScript_eq_plan (board : Board) (inputs : Inputs sizes) :
    ∃ (l : Link) (address : Symbol → Nat),
      link board.linkerScript (Assembly.render Boot.entryFile) inputs.sections = some l ∧
      (∀ s, l.state.value? s.name = some (address s)) ∧
      ((∀ s, address s < 2 ^ 64) →
        ∃ layout, Layout.plan board sizes = .ok layout ∧
          ∀ s, (layout.get s).toNat = address s) ∧
      ((∃ s, 2 ^ 64 ≤ address s) → Layout.plan board sizes = .error .addressOverflow) ∧
      ∀ layout, Layout.plan board sizes = .ok layout →
        l.checks.length = 4 ∧ ((∀ c ∈ l.checks, c) ↔ layout.check board = .ok ()) := by
  obtain ⟨l, hlink, hsymbols, hchecks⟩ := link_linkerScript board inputs
  refine ⟨l, Layout.planned board sizes, hlink, value?_name hsymbols, fun hlt => ?_, ?_,
    fun layout hplan => ?_⟩
  · obtain ⟨layout, hplan⟩ := Layout.plan_eq_ok_of_lt hlt
    exact ⟨layout, hplan, Layout.plan_eq_ok_iff.mp hplan⟩
  · rintro ⟨s, hs⟩
    exact Layout.plan_eq_error_of_le hs
  · rw [hchecks, Layout.check_eq_ok_iff, Layout.obeys_iff_of_plan hplan]
    simp

end KernelImage.Script
