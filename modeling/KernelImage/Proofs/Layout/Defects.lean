import KernelImage.Proofs.Layout.Seamless

/-!
# What a check reports

`Layout.FirstDefect` lists the defects that a layout can be reported with. Each one belongs to the
first rule that is broken, and says by how much. `Layout.check` reports just this defect.
-/

namespace KernelImage.Layout

/-- Each part of the image ends where the next one starts. -/
structure Joined (l : Layout) : Prop where
  rodata : l.etext = l.srodata
  data : l.erodata = l.sdata
  bss : l.edata = l.sbssWithStack
  bootStack : l.sbssWithStack = l.bootStack
  ekernel : l.ebss = l.ekernel

inductive FirstDefect (l : Layout) (board : Board) : Defect → Prop where
  | skernel (h : l.skernel ≠ board.base) : FirstDefect l board (.baseMismatch board.base l.skernel)
  | stext (skernel : l.skernel = board.base) (h : l.stext ≠ board.base) :
    FirstDefect l board (.baseMismatch board.base l.stext)
  | order (based : l.Based board) {s t : Symbol}
    (h : IsFirst (fun p => l.get p.2 < l.get p.1) Symbol.neighbours (s, t)) :
    FirstDefect l board (.outOfOrder s t)
  /-- An empty boot stack is reported as if its two ends were out of order. -/
  | emptyStack (based : l.Based board) (ordered : l.Ordered) (h : l.bootStackTop = l.bootStack) :
    FirstDefect l board (.outOfOrder .bootStackTop .bootStack)
  | alignment (based : l.Based board) (ordered : l.Ordered)
    (stackNonempty : l.bootStack ≠ l.bootStackTop) {s : Symbol}
    (h : IsFirst (fun s => s ≠ .sbss ∧ ¬ 4096 ∣ (l.get s).toNat) Symbol.all s) :
    FirstDefect l board (.unaligned s (l.get s))
  /-- Both ends of a seam lie on page boundaries, so that the gap is made of whole pages. -/
  | seam (placed : l.OnPages board) {s t : Symbol} {n : UInt64}
    (h : IsFirst (fun p => l.get p.1 ≠ l.get p.2)
      [(.etext, .srodata), (.erodata, .sdata), (.edata, .sbssWithStack),
        (.sbssWithStack, .bootStack), (.ebss, .ekernel)] (s, t))
    (span : l.SpanIs s t n) (pos : 0 < n.toNat) (pages : 4096 ∣ n.toNat) :
    FirstDefect l board (.gap s t n)
  | stackSize (placed : l.OnPages board) (joined : l.Joined) {n : UInt64}
    (span : l.SpanIs .bootStack .bootStackTop n) (pos : 0 < n.toNat) (pages : 4096 ∣ n.toNat)
    (h : n.toNat ≠ 65536) : FirstDefect l board (.stackSize 65536 n)
  | memory (placed : l.OnPages board) (joined : l.Joined)
    (stack : l.bootStack.toNat + 65536 = l.bootStackTop.toNat) (h : board.memoryEnd < l.ekernel) :
    FirstDefect l board (.exceedsMemory l.ekernel board.memoryEnd)

variable {l : Layout} {board : Board} {e : Failure}

/-! ## Each rule -/

theorem checkBase_eq_error_iff :
    l.checkBase board = .error e ↔
      l.skernel ≠ board.base ∧ e = .defect (.baseMismatch board.base l.skernel) ∨
        l.skernel = board.base ∧ l.stext ≠ board.base ∧
          e = .defect (.baseMismatch board.base l.stext) := by
  unfold checkBase
  by_cases hskernel : l.skernel = board.base
  · by_cases hstext : l.stext = board.base
    · simp [hskernel, hstext]
    · simp [hskernel, hstext, Outcome.defect, eq_comm]
  · simp [hskernel, Outcome.defect, eq_comm]

theorem checkOrder_eq_error_iff :
    l.checkOrder = .error e ↔
      ∃ p, IsFirst (fun p => l.get p.2 < l.get p.1) Symbol.neighbours p ∧
        e = .defect (.outOfOrder p.1 p.2) := by
  simp only [← find?_eq_some_iff_isFirst]
  unfold checkOrder
  generalize Symbol.neighbours.find? (fun p => decide (l.get p.2 < l.get p.1)) = first
  cases first with
  | none => simp
  | some p => simp [Outcome.defect, eq_comm]

theorem checkStackNonempty_eq_error_iff :
    l.checkStackNonempty = .error e ↔
      l.bootStackTop = l.bootStack ∧ e = .defect (.outOfOrder .bootStackTop .bootStack) := by
  rw [checkStackNonempty, ensure_eq_error_iff, not_not, eq_comm (a := l.bootStack)]

theorem not_aligned_iff {s : Symbol} :
    s.OnPageBoundary ∧ ¬ (l.get s).PageAligned ↔ s ≠ .sbss ∧ ¬ 4096 ∣ (l.get s).toNat := by
  rw [Address.pageAligned_iff, ← Nat.dvd_iff_mod_eq_zero]
  rfl

theorem checkAlignment_eq_error_iff :
    l.checkAlignment = .error e ↔
      ∃ s, IsFirst (fun s => s ≠ .sbss ∧ ¬ 4096 ∣ (l.get s).toNat) Symbol.all s ∧
        e = .defect (.unaligned s (l.get s)) := by
  simp only [← not_aligned_iff, ← find?_eq_some_iff_isFirst]
  unfold checkAlignment
  generalize Symbol.all.find? (fun s => decide (s.OnPageBoundary ∧ ¬ (l.get s).PageAligned)) = first
  cases first with
  | none => simp
  | some s => simp [Outcome.defect, eq_comm]

theorem SpanIs.unique {s t : Symbol} {m n : UInt64} (hm : l.SpanIs s t m) (hn : l.SpanIs s t n) :
    m = n := by
  unfold SpanIs at hm hn
  rw [← UInt64.toNat_inj]
  omega

theorem SpanIs.pos_iff {s t : Symbol} {n : UInt64} (h : l.SpanIs s t n) :
    0 < n.toNat ↔ l.get s ≠ l.get t := by
  unfold SpanIs at h
  rw [ne_eq, ← Address.toNat_inj]
  omega

theorem OnPages.dvd_span (h : l.OnPages board) {s t : Symbol} {n : UInt64} (hs : s.OnPageBoundary)
    (ht : t.OnPageBoundary) (span : l.SpanIs s t n) : 4096 ∣ n.toNat := by
  have hdvds := h.dvd s hs
  have hdvdt := h.dvd t ht
  unfold SpanIs at span
  omega

theorem OnPages.checkSeam_eq_ok_iff_joined (h : l.OnPages board) {p : Symbol × Symbol}
    (hp : p ∈ seams) {u : Unit} : l.checkSeam p = .ok u ↔ l.get p.1 = l.get p.2 := by
  rw [checkSeam_eq_ok_iff (h.ordered p (seams_subset_neighbours p hp)), h.lt_iff_joined hp]

theorem joined_iff : l.Joined ↔ ∀ p ∈ seams, l.get p.1 = l.get p.2 := by
  simp only [seams, List.forall_mem_cons, List.not_mem_nil, false_implies, implies_true, and_true]
  constructor
  · rintro ⟨hrodata, hdata, hbss, hbootStack, hekernel⟩
    exact ⟨hrodata, hdata, hbss, hbootStack, hekernel⟩
  · rintro ⟨hrodata, hdata, hbss, hbootStack, hekernel⟩
    exact ⟨hrodata, hdata, hbss, hbootStack, hekernel⟩

theorem OnPages.checkSeams_eq_ok_iff_joined (h : l.OnPages board) {u : Unit} :
    l.checkSeams = .ok u ↔ l.Joined := by
  rw [checkSeams_eq, forM_eq_ok_iff, joined_iff]
  exact forall₂_congr fun p hp => h.checkSeam_eq_ok_iff_joined hp

theorem OnPages.checkSeam_eq_error_iff (h : l.OnPages board) {p : Symbol × Symbol} (hp : p ∈ seams)
    (hopen : l.get p.1 ≠ l.get p.2) :
    l.checkSeam p = .error e ↔ ∃ n, l.SpanIs p.1 p.2 n ∧ 0 < n.toNat ∧ 4096 ∣ n.toNat ∧
      e = .defect (.gap p.1 p.2 n) := by
  obtain ⟨hs, ht⟩ := onPageBoundary_of_mem_seams p hp
  obtain ⟨n, -, span⟩ := exists_span_eq_ok (h.ordered p (seams_subset_neighbours p hp))
  have hlong : ¬ n < pageSize := by
    have hfails := mt (h.checkSeam_eq_ok_iff_joined hp (u := ())).mp hopen
    rwa [checkSeam_eq span, ensure_eq_ok_iff] at hfails
  rw [checkSeam_eq span, ensure_eq_error_iff, and_iff_right hlong]
  constructor
  · rintro rfl
    exact ⟨n, span, span.pos_iff.mpr hopen, h.dvd_span hs ht span, rfl⟩
  · rintro ⟨m, span', -, -, rfl⟩
    rw [span.unique span']

theorem OnPages.checkSeams_eq_error_iff (h : l.OnPages board) :
    l.checkSeams = .error e ↔
      ∃ s t n, IsFirst (fun p => l.get p.1 ≠ l.get p.2) seams (s, t) ∧ l.SpanIs s t n ∧
        0 < n.toNat ∧ 4096 ∣ n.toNat ∧ e = .defect (.gap s t n) := by
  have hfirst (p : Symbol × Symbol) : IsFirst (fun p => l.checkSeam p ≠ .ok ()) seams p ↔
      IsFirst (fun p => l.get p.1 ≠ l.get p.2) seams p :=
    isFirst_congr fun q hq => not_congr (h.checkSeam_eq_ok_iff_joined hq)
  simp only [checkSeams_eq, forM_eq_error_iff, hfirst, Prod.exists, exists_and_left]
  refine exists_congr fun s => exists_congr fun t => and_congr_right fun hst => ?_
  exact h.checkSeam_eq_error_iff hst.mem hst.1

theorem OnPages.wellPlaced (h : l.OnPages board) (joined : l.Joined)
    (stack : l.bootStack.toNat + 65536 = l.bootStackTop.toNat) : l.WellPlaced board where
  skernel := h.based.1
  stext := h.based.2
  ordered := h.ordered
  stackNonempty := h.stackNonempty
  aligned := h.aligned
  seams := by
    intro p hp
    rw [joined_iff.mp joined p hp]
    exact Nat.lt_add_of_pos_right (by decide)
  stack := stack

theorem OnPages.checkStackSize_eq_error_iff (h : l.OnPages board) :
    l.checkStackSize = .error e ↔
      ∃ n, l.SpanIs .bootStack .bootStackTop n ∧ 0 < n.toNat ∧ 4096 ∣ n.toNat ∧
        n.toNat ≠ 65536 ∧ e = .defect (.stackSize 65536 n) := by
  obtain ⟨n, hspan, span⟩ :=
    exists_span_eq_ok (h.ordered (.bootStack, .bootStackTop) (by decide))
  have pages : 4096 ∣ n.toNat := h.dvd_span (by decide) (by decide) span
  have hpos : 0 < n.toNat := span.pos_iff.mpr h.stackNonempty
  rw [checkStackSize, hspan, ok_bind, ensure_eq_error_iff, ← UInt64.toNat_inj,
    toNat_bootStackSize]
  constructor
  · rintro ⟨hsize, rfl⟩
    exact ⟨n, span, hpos, pages, hsize, rfl⟩
  · rintro ⟨m, span', -, -, hsize, rfl⟩
    obtain rfl := span.unique span'
    exact ⟨hsize, rfl⟩

theorem checkMemory_eq_error_iff :
    l.checkMemory board = .error e ↔
      board.memoryEnd < l.ekernel ∧ e = .defect (.exceedsMemory l.ekernel board.memoryEnd) := by
  rw [checkMemory, ensure_eq_error_iff, Address.le_iff_toNat_le, Nat.not_le,
    ← Address.lt_iff_toNat_lt]

/-! ## All rules -/

/-- The rule that fails first decides; all rules before it hold. -/
theorem exists_firstDefect_of_check (h : l.check board = .error e) :
    ∃ d, e = .defect d ∧ l.FirstDefect board d := by
  rcases bind_eq_error_iff.mp h with h | ⟨_, hbase, h⟩
  · obtain ⟨hskernel, rfl⟩ | ⟨hskernel, hstext, rfl⟩ := checkBase_eq_error_iff.mp h
    · exact ⟨_, rfl, .skernel hskernel⟩
    · exact ⟨_, rfl, .stext hskernel hstext⟩
  have based : l.Based board := checkBase_eq_ok_iff.mp hbase
  rcases bind_eq_error_iff.mp h with h | ⟨_, horder, h⟩
  · obtain ⟨p, hp, rfl⟩ := checkOrder_eq_error_iff.mp h
    exact ⟨_, rfl, .order based hp⟩
  have ordered : l.Ordered := checkOrder_eq_ok_iff.mp horder
  rcases bind_eq_error_iff.mp h with h | ⟨_, hstack, h⟩
  · obtain ⟨hempty, rfl⟩ := checkStackNonempty_eq_error_iff.mp h
    exact ⟨_, rfl, .emptyStack based ordered hempty⟩
  have stackNonempty : l.bootStack ≠ l.bootStackTop := checkStackNonempty_eq_ok_iff.mp hstack
  rcases bind_eq_error_iff.mp h with h | ⟨_, halign, h⟩
  · obtain ⟨s, hs, rfl⟩ := checkAlignment_eq_error_iff.mp h
    exact ⟨_, rfl, .alignment based ordered stackNonempty hs⟩
  have placed : l.OnPages board :=
    ⟨based, ordered, stackNonempty, checkAlignment_eq_ok_iff.mp halign⟩
  rcases bind_eq_error_iff.mp h with h | ⟨_, hseams, h⟩
  · obtain ⟨s, t, n, hst, span, hpos, pages, rfl⟩ := placed.checkSeams_eq_error_iff.mp h
    exact ⟨_, rfl, .seam placed hst span hpos pages⟩
  have joined := placed.checkSeams_eq_ok_iff_joined.mp hseams
  rcases bind_eq_error_iff.mp h with h | ⟨_, hsize, h⟩
  · obtain ⟨n, span, hpos, pages, hne, rfl⟩ := placed.checkStackSize_eq_error_iff.mp h
    exact ⟨_, rfl, .stackSize placed joined span hpos pages hne⟩
  obtain ⟨hmemory, rfl⟩ := checkMemory_eq_error_iff.mp h
  exact ⟨_, rfl, .memory placed joined (checkStackSize_eq_ok_iff.mp hsize) hmemory⟩

theorem FirstDefect.check_eq {d : Defect} (h : l.FirstDefect board d) :
    l.check board = .error (.defect d) := by
  cases h with
  | skernel h =>
    rw [check, checkBase_eq_error_iff.mpr (.inl ⟨h, rfl⟩)]
    rfl
  | stext skernel h =>
    rw [check, checkBase_eq_error_iff.mpr (.inr ⟨skernel, h, rfl⟩)]
    rfl
  | order based h =>
    rw [based.check_eq, checkOrder_eq_error_iff.mpr ⟨_, h, rfl⟩]
    rfl
  | emptyStack based ordered h =>
    rw [based.check_eq_of_ordered ordered, checkStackNonempty_eq_error_iff.mpr ⟨h, rfl⟩]
    rfl
  | alignment based ordered stackNonempty h =>
    have hstack : l.checkStackNonempty = .ok () := checkStackNonempty_eq_ok_iff.mpr stackNonempty
    rw [based.check_eq_of_ordered ordered, hstack, ok_bind,
      checkAlignment_eq_error_iff.mpr ⟨_, h, rfl⟩]
    rfl
  | seam placed h span pos pages =>
    rw [placed.check_eq,
      placed.checkSeams_eq_error_iff.mpr ⟨_, _, _, h, span, pos, pages, rfl⟩]
    rfl
  | stackSize placed joined span pos pages h =>
    have hseams : l.checkSeams = .ok () := placed.checkSeams_eq_ok_iff_joined.mpr joined
    rw [placed.check_eq, hseams, ok_bind,
      placed.checkStackSize_eq_error_iff.mpr ⟨_, span, pos, pages, h, rfl⟩]
    rfl
  | memory placed joined stack h =>
    rw [(placed.wellPlaced joined stack).check_eq]
    exact checkMemory_eq_error_iff.mpr ⟨h, rfl⟩

theorem check_eq_defect_iff {d : Defect} :
    l.check board = .error (.defect d) ↔ l.FirstDefect board d := by
  constructor
  · intro h
    obtain ⟨d', hd, hfirst⟩ := exists_firstDefect_of_check h
    obtain rfl := Failure.defect.inj hd
    exact hfirst
  · exact FirstDefect.check_eq

/-- A check never faults, and it reports the first defect of a layout. -/
theorem check_exact (l : Layout) (board : Board) :
    ¬ (l.check board).Faults ∧
      ∀ d, l.check board = .error (.defect d) ↔ l.FirstDefect board d :=
  ⟨not_faults_check l board, fun _ => check_eq_defect_iff⟩

/-! ## Reports on the order -/

theorem firstDefect_outOfOrder_iff {s t : Symbol} :
    l.FirstDefect board (.outOfOrder s t) ↔
      l.Based board ∧ IsFirst (fun p => l.get p.2 < l.get p.1) Symbol.neighbours (s, t) ∨
        l.Based board ∧ l.Ordered ∧ l.bootStackTop = l.bootStack ∧ s = .bootStackTop ∧
          t = .bootStack := by
  constructor
  · intro h
    cases h with
    | order based h => exact .inl ⟨based, h⟩
    | emptyStack based ordered h => exact .inr ⟨based, ordered, h, rfl, rfl⟩
  · rintro (⟨based, h⟩ | ⟨based, ordered, h, rfl, rfl⟩)
    · exact .order based h
    · exact .emptyStack based ordered h

/--
The first address of a pair that is reported as out of order is above the second one exactly when the
scan of neighbours found the pair. Otherwise the layout is in order and its boot stack is empty.
-/
theorem outOfOrder_above_iff (l : Layout) (board : Board) (s t : Symbol) :
    (l.check board = .error (.defect (.outOfOrder s t)) ∧ l.get t < l.get s ↔
        l.Based board ∧ IsFirst (fun p => l.get p.2 < l.get p.1) Symbol.neighbours (s, t)) ∧
      (l.check board = .error (.defect (.outOfOrder s t)) ∧ ¬ l.get t < l.get s ↔
        l.Based board ∧ l.Ordered ∧ l.bootStackTop = l.bootStack ∧ s = .bootStackTop ∧
          t = .bootStack) := by
  rw [check_eq_defect_iff, firstDefect_outOfOrder_iff]
  have hempty (h : l.bootStackTop = l.bootStack) : ¬ l.get .bootStack < l.get .bootStackTop := by
    change ¬ l.bootStack < l.bootStackTop
    rw [h, Address.lt_iff_toNat_lt]
    exact Nat.lt_irrefl _
  constructor
  · constructor
    · rintro ⟨hscan | ⟨-, -, h, rfl, rfl⟩, habove⟩
      · exact hscan
      · exact absurd habove (hempty h)
    · intro hscan
      exact ⟨.inl hscan, hscan.2.1⟩
  · constructor
    · rintro ⟨⟨-, hscan⟩ | hstack, habove⟩
      · exact absurd hscan.1 habove
      · exact hstack
    · rintro ⟨based, ordered, h, rfl, rfl⟩
      exact ⟨.inr ⟨based, ordered, h, rfl, rfl⟩, hempty h⟩

/-- An image that has no boot stack. -/
def stackless : Layout := { sample with bootStackTop := sample.bootStack }

theorem check_stackless :
    stackless.check .qemu = .error (.defect (.outOfOrder .bootStackTop .bootStack)) ∧
      ¬ stackless.get .bootStack < stackless.get .bootStackTop ∧
      (Defect.outOfOrder .bootStackTop .bootStack).message =
        "boot_stack_top must not lie above boot_stack" := by
  decide +kernel

end KernelImage.Layout
