import KernelImage.Layout.Plan
import KernelImage.Proofs.Layout.Check

/-!
# Planned layouts in exact arithmetic

`planned` gives the boundaries their addresses as natural numbers. `Layout.plan` has these addresses
as soon as all of them fit into 64 bits, and only the end of memory can then be exceeded.
`exactAddress` counts whole pages instead, and the end of the image decides whether there is a plan.
-/

namespace KernelImage.Layout

/-- The addresses of a plan, without a bound. -/
def planned (board : Board) (sizes : InputSizes) : Symbol → Nat :=
  let base := board.base.toNat
  let strampoline := roundUp (base + sizes.entry.toNat)
  let etrampoline := roundUp (strampoline + sizes.trampoline.toNat)
  let etext := roundUp (etrampoline + sizes.text.toNat)
  let erodata := roundUp (etext + sizes.rodata.toNat)
  let edata := roundUp (erodata + sizes.data.toNat)
  let bootStackTop := edata + bootStackSize.toNat
  let ebss := roundUp (bootStackTop + sizes.bss.toNat)
  fun
  | .skernel => base
  | .stext => base
  | .strampoline => strampoline
  | .etrampoline => etrampoline
  | .etext => etext
  | .srodata => etext
  | .erodata => erodata
  | .sdata => erodata
  | .edata => edata
  | .sbssWithStack => edata
  | .bootStack => edata
  | .bootStackTop => bootStackTop
  | .sbss => bootStackTop
  | .ebss => ebss
  | .ekernel => ebss

variable {board : Board} {sizes : InputSizes} {l : Layout}

/-! ## Results -/

theorem plan?_eq_some_iff :
    plan? board sizes = some l ↔ ∀ s, (l.get s).toNat = planned board sizes s := by
  simp only [plan?, Option.bind_eq_bind, Option.bind_eq_some_iff, Option.pure_def, Option.some.injEq,
    Address.afterPadded?_eq_some_iff, Address.offset?_eq_some_iff]
  constructor
  · rintro ⟨a₁, h₁, a₂, h₂, a₃, h₃, a₄, h₄, a₅, h₅, a₆, h₆, a₇, h₇, rfl⟩ s
    rw [h₁] at h₂
    rw [h₂] at h₃
    rw [h₃] at h₄
    rw [h₄] at h₅
    rw [h₅] at h₆
    rw [h₆] at h₇
    cases s <;> first | rfl | assumption
  · intro h
    have hstrampoline := h .strampoline
    have hetrampoline := h .etrampoline
    have hetext := h .etext
    have herodata := h .erodata
    have hedata := h .edata
    have hbootStackTop := h .bootStackTop
    have hebss := h .ebss
    simp only [get, planned] at hstrampoline hetrampoline hetext herodata hedata hbootStackTop hebss
    refine ⟨l.strampoline, hstrampoline, l.etrampoline, ?_, l.etext, ?_, l.erodata, ?_, l.edata, ?_,
      l.bootStackTop, ?_, l.ebss, ?_, ext_get fun s => ?_⟩
    · rw [hetrampoline, hstrampoline]
    · rw [hetext, hetrampoline]
    · rw [herodata, hetext]
    · rw [hedata, herodata]
    · rw [hbootStackTop, hedata]
    · rw [hebss, hbootStackTop]
    · rw [← Address.toNat_inj, h s]
      cases s <;> first | rfl | assumption

theorem plan_eq_ok_iff :
    plan board sizes = .ok l ↔ ∀ s, (l.get s).toNat = planned board sizes s := by
  rw [← plan?_eq_some_iff, plan]
  rcases plan? board sizes with _ | m <;> simp

theorem plan_eq_ok_of_lt (h : ∀ s, planned board sizes s < 2 ^ 64) :
    ∃ l, plan board sizes = .ok l := by
  refine ⟨.ofFn fun s => .ofNat (planned board sizes s), plan_eq_ok_iff.mpr fun s => ?_⟩
  rw [get_ofFn, Address.toNat_ofNat (h s)]

theorem plan_eq_error_of_le {s : Symbol} (h : 2 ^ 64 ≤ planned board sizes s) :
    plan board sizes = .error .addressOverflow := by
  unfold plan
  rcases hplan : plan? board sizes with _ | l
  · rfl
  · have hs := plan?_eq_some_iff.mp hplan s
    have hlt := (l.get s).toNat_lt
    omega

/-! ## Rules -/

theorem planned_mod (s : Symbol) (hs : s.OnPageBoundary) : planned board sizes s % 4096 = 0 := by
  have hbase := base_mod board
  have hstack : bootStackSize.toNat % 4096 = 0 := by decide
  cases s <;> simp only [planned, roundUp_mod, hbase]
  case bootStackTop =>
    rw [Nat.add_mod, roundUp_mod, hstack]
  case sbss => exact absurd rfl hs

theorem planned_ordered : ∀ p ∈ Symbol.neighbours,
    planned board sizes p.1 ≤ planned board sizes p.2 := by
  have hstep (a b : Nat) : a ≤ roundUp (a + b) := Nat.le_trans (Nat.le_add_right a b) (le_roundUp _)
  simp only [Symbol.neighbours, Symbol.all, List.tail_cons, List.zip_cons_cons, List.zip_nil_right,
    List.forall_mem_cons, planned, hstep, Nat.le_refl, Nat.le_add_right, true_and]
  simp

theorem planned_seams : ∀ p ∈ seams, planned board sizes p.2 = planned board sizes p.1 := by
  simp [seams, planned]

theorem wellPlaced_of_plan (h : plan board sizes = .ok l) : l.WellPlaced board := by
  have hget := plan_eq_ok_iff.mp h
  refine
    { skernel := Address.toNat_inj.mp (hget .skernel)
      stext := Address.toNat_inj.mp (hget .stext)
      ordered := fun p hp => ?_
      stackNonempty := fun heq => ?_
      aligned := fun s hs => ?_
      seams := fun p hp => ?_
      stack := ?_ }
  · rw [Address.le_iff_toNat_le, hget, hget]
    exact planned_ordered p hp
  · have hne := congrArg Address.toNat heq
    have hpos : 0 < bootStackSize.toNat := by decide
    change (l.get .bootStack).toNat = (l.get .bootStackTop).toNat at hne
    rw [hget, hget] at hne
    simp only [planned] at hne
    omega
  · rw [Address.pageAligned_iff, hget]
    exact planned_mod s hs
  · rw [hget, hget, planned_seams p hp]
    exact Nat.lt_add_of_pos_right (by decide)
  · change (l.get .bootStack).toNat + _ = (l.get .bootStackTop).toNat
    rw [hget, hget]
    rfl

theorem obeys_iff_of_plan (h : plan board sizes = .ok l) :
    l.Obeys board ↔ planned board sizes .ekernel ≤ board.memoryEnd.toNat := by
  rw [(wellPlaced_of_plan h).obeys_iff, Address.le_iff_toNat_le, ← plan_eq_ok_iff.mp h .ekernel]
  rfl

/-- All that a check can find in a planned layout is that it ends beyond the memory of the board. -/
theorem check_of_plan (h : plan board sizes = .ok l) :
    l.check board =
      if l.ekernel ≤ board.memoryEnd then .ok ()
      else .error (.defect (.exceedsMemory l.ekernel board.memoryEnd)) := by
  have hplaced : l.WellPlaced board := wellPlaced_of_plan h
  rw [hplaced.check_eq, checkMemory, ensure]

/-- The layout of an image that has nothing but eight megabytes of zeroed memory. -/
def oversized : Layout :=
  .ofFn fun s =>
    if s.index < 11 then ⟨0x80200000⟩ else if s.index < 13 then ⟨0x80210000⟩ else ⟨0x80a10000⟩

theorem check_oversized :
    plan .qemu { bss := 0x800000 } = .ok oversized ∧
      oversized.check .qemu =
        .error (.defect (.exceedsMemory ⟨0x80a10000⟩ ⟨0x80800000⟩)) := by
  have h : plan .qemu { bss := 0x800000 } = .ok oversized := by decide +kernel
  exact ⟨h, check_of_plan h⟩

/-! ## Whole pages -/

/-- The addresses when every group fills whole pages, right after the group before it. -/
def exactAddress (board : Board) (sizes : InputSizes) : Symbol → Nat :=
  let base := board.base.toNat
  let strampoline := base + roundUp sizes.entry.toNat
  let etrampoline := strampoline + roundUp sizes.trampoline.toNat
  let etext := etrampoline + roundUp sizes.text.toNat
  let erodata := etext + roundUp sizes.rodata.toNat
  let edata := erodata + roundUp sizes.data.toNat
  let bootStackTop := edata + 65536
  let ebss := bootStackTop + roundUp sizes.bss.toNat
  fun
  | .skernel => base
  | .stext => base
  | .strampoline => strampoline
  | .etrampoline => etrampoline
  | .etext => etext
  | .srodata => etext
  | .erodata => erodata
  | .sdata => erodata
  | .edata => edata
  | .sbssWithStack => edata
  | .bootStack => edata
  | .bootStackTop => bootStackTop
  | .sbss => bootStackTop
  | .ebss => ebss
  | .ekernel => ebss

theorem planned_eq_exactAddress_step {s t : Symbol} {n : Nat}
    (h : planned board sizes s = exactAddress board sizes s) (hs : s.OnPageBoundary)
    (hplanned : planned board sizes t = roundUp (planned board sizes s + n))
    (hexact : exactAddress board sizes t = exactAddress board sizes s + roundUp n) :
    planned board sizes t = exactAddress board sizes t := by
  rw [hplanned, roundUp_add (planned_mod s hs), h, hexact]

theorem planned_eq_exactAddress (s : Symbol) :
    planned board sizes s = exactAddress board sizes s := by
  have hstrampoline : planned board sizes .strampoline = exactAddress board sizes .strampoline :=
    planned_eq_exactAddress_step (s := .stext) rfl (by decide) rfl rfl
  have hetrampoline : planned board sizes .etrampoline = exactAddress board sizes .etrampoline :=
    planned_eq_exactAddress_step hstrampoline (by decide) rfl rfl
  have hetext : planned board sizes .etext = exactAddress board sizes .etext :=
    planned_eq_exactAddress_step hetrampoline (by decide) rfl rfl
  have herodata : planned board sizes .erodata = exactAddress board sizes .erodata :=
    planned_eq_exactAddress_step hetext (by decide) rfl rfl
  have hedata : planned board sizes .edata = exactAddress board sizes .edata :=
    planned_eq_exactAddress_step herodata (by decide) rfl rfl
  have hbootStackTop : planned board sizes .bootStackTop = exactAddress board sizes .bootStackTop := by
    change planned board sizes .edata + bootStackSize.toNat = exactAddress board sizes .edata + 65536
    rw [hedata, toNat_bootStackSize]
  have hebss : planned board sizes .ebss = exactAddress board sizes .ebss :=
    planned_eq_exactAddress_step hbootStackTop (by decide) rfl rfl
  cases s with
  | skernel | stext => rfl
  | strampoline => exact hstrampoline
  | etrampoline => exact hetrampoline
  | etext | srodata => exact hetext
  | erodata | sdata => exact herodata
  | edata | sbssWithStack | bootStack => exact hedata
  | bootStackTop | sbss => exact hbootStackTop
  | ebss | ekernel => exact hebss

theorem exactAddress_le_ekernel (board : Board) (sizes : InputSizes) (s : Symbol) :
    exactAddress board sizes s ≤ exactAddress board sizes .ekernel := by
  cases s <;> simp only [exactAddress] <;> omega

/-- There is a plan as soon as the exact end of the image fits, and it has the exact addresses. -/
theorem plan_eq_exactAddress (board : Board) (sizes : InputSizes) :
    (∀ n, IsLeast {m | n ≤ m ∧ 4096 ∣ m} (roundUp n)) ∧
      (∀ s, exactAddress board sizes s ≤ exactAddress board sizes .ekernel) ∧
      plan board sizes =
        if exactAddress board sizes .ekernel < 2 ^ 64 then
          .ok (ofFn fun s => .ofNat (exactAddress board sizes s))
        else .error .addressOverflow := by
  refine ⟨isLeast_roundUp, exactAddress_le_ekernel board sizes, ?_⟩
  split
  case isTrue hfits =>
    rw [plan_eq_ok_iff]
    intro s
    have hle := exactAddress_le_ekernel board sizes s
    rw [get_ofFn, Address.toNat_ofNat (by omega), planned_eq_exactAddress]
  case isFalse hover =>
    rw [← planned_eq_exactAddress, Nat.not_lt] at hover
    exact plan_eq_error_of_le hover

-- The code ends at the highest address, which has no page boundary after it.
example : plan .qemu { text := 0xffffffff7fdfffff } = .error .addressOverflow := by decide +kernel

end KernelImage.Layout
