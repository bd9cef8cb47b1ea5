import KernelImage.Layout.Check
import KernelImage.Proofs.Layout.Basic
import KernelImage.Proofs.Memory.Address
import KernelImage.Proofs.Outcome

/-!
# The rules for a layout, as a whole

`Layout.Obeys` states all rules at once. `Layout.check` accepts exactly the layouts that obey them,
and it never faults: the differences that it computes are of boundaries that are in order.
-/

namespace KernelImage.Layout

theorem base_mod (board : Board) : board.base.toNat % 4096 = 0 := by cases board <;> decide

/-- The layout obeys every rule but the last one, which is about the end of memory. -/
structure WellPlaced (l : Layout) (board : Board) : Prop where
  skernel : l.skernel = board.base
  stext : l.stext = board.base
  ordered : ∀ p ∈ Symbol.neighbours, l.get p.1 ≤ l.get p.2
  stackNonempty : l.bootStack ≠ l.bootStackTop
  aligned : ∀ s : Symbol, s.OnPageBoundary → (l.get s).PageAligned
  seams : ∀ p ∈ seams, (l.get p.2).toNat < (l.get p.1).toNat + pageSize.toNat
  stack : l.bootStack.toNat + bootStackSize.toNat = l.bootStackTop.toNat

/-- The layout obeys every rule for images on a board. -/
structure Obeys (l : Layout) (board : Board) : Prop extends l.WellPlaced board where
  memory : l.ekernel ≤ board.memoryEnd

/-! ## Each rule -/

theorem checkBase_eq_ok_iff {l : Layout} {board : Board} {u : Unit} :
    l.checkBase board = .ok u ↔ l.skernel = board.base ∧ l.stext = board.base := by
  unfold checkBase
  split
  case h_1 a ha =>
    have hne : a ≠ board.base := by simpa using List.find?_some ha
    have hmem := List.mem_of_find?_eq_some ha
    simp only [List.mem_cons, List.not_mem_nil, or_false] at hmem
    simp only [Outcome.defect, reduceCtorEq, false_iff, not_and_or]
    rcases hmem with rfl | rfl
    · exact .inl hne
    · exact .inr hne
  case h_2 hnone =>
    simpa using hnone

theorem checkOrder_eq_ok_iff {l : Layout} {u : Unit} :
    l.checkOrder = .ok u ↔ ∀ p ∈ Symbol.neighbours, l.get p.1 ≤ l.get p.2 := by
  unfold checkOrder
  split
  case h_1 p hp =>
    have hlt : l.get p.2 < l.get p.1 := by simpa using List.find?_some hp
    simp only [Outcome.defect, reduceCtorEq, false_iff, not_forall]
    refine ⟨p, List.mem_of_find?_eq_some hp, ?_⟩
    rw [Address.lt_iff_toNat_lt] at hlt
    rw [Address.le_iff_toNat_le]
    omega
  case h_2 hnone =>
    rw [List.find?_eq_none] at hnone
    simp only [true_iff]
    intro p hp
    have := hnone p hp
    rw [decide_eq_true_eq, Address.lt_iff_toNat_lt] at this
    rw [Address.le_iff_toNat_le]
    omega

theorem checkStackNonempty_eq_ok_iff {l : Layout} {u : Unit} :
    l.checkStackNonempty = .ok u ↔ l.bootStack ≠ l.bootStackTop := ensure_eq_ok_iff

theorem checkAlignment_eq_ok_iff {l : Layout} {u : Unit} :
    l.checkAlignment = .ok u ↔ ∀ s : Symbol, s.OnPageBoundary → (l.get s).PageAligned := by
  unfold checkAlignment
  split
  case h_1 s hs =>
    have hbad : s.OnPageBoundary ∧ ¬ (l.get s).PageAligned := by simpa using List.find?_some hs
    simp only [Outcome.defect, reduceCtorEq, false_iff, not_forall]
    exact ⟨s, hbad.1, hbad.2⟩
  case h_2 hnone =>
    rw [List.find?_eq_none] at hnone
    simp only [true_iff]
    intro s hs
    by_contra hbad
    exact hnone s (Symbol.mem_all s) (by simpa using ⟨hs, hbad⟩)

theorem span_eq_ok_iff {l : Layout} {s t : Symbol} {n : UInt64} :
    l.span s t = .ok n ↔ (l.get s).toNat + n.toNat = (l.get t).toNat := by
  rw [span, Outcome.orFault_eq_ok_iff, Address.distance?_eq_some_iff]

theorem faults_span_iff {l : Layout} {s t : Symbol} :
    (l.span s t).Faults ↔ (l.get t).toNat < (l.get s).toNat := by
  rw [span, Outcome.faults_orFault_iff, Address.distance?_eq_none_iff]

/-- The number of bytes from one boundary up to another. -/
def SpanIs (l : Layout) (s t : Symbol) (n : UInt64) : Prop :=
  (l.get s).toNat + n.toNat = (l.get t).toNat

theorem exists_span_eq_ok {l : Layout} {s t : Symbol} (h : l.get s ≤ l.get t) :
    ∃ n, l.span s t = .ok n ∧ l.SpanIs s t n := by
  rcases hspan : l.span s t with f | n
  · have hfault : (l.span s t).Faults := ⟨_, (Outcome.orFault_eq_error_iff.mp hspan).2 ▸ hspan⟩
    rw [Address.le_iff_toNat_le] at h
    rw [faults_span_iff] at hfault
    omega
  · exact ⟨n, rfl, span_eq_ok_iff.mp hspan⟩

theorem seams_subset_neighbours : ∀ p ∈ seams, p ∈ Symbol.neighbours := by decide

theorem onPageBoundary_of_mem_seams :
    ∀ p ∈ seams, p.1.OnPageBoundary ∧ p.2.OnPageBoundary := by decide

/-- The step of `checkSeams` at one seam. -/
def checkSeam (l : Layout) (p : Symbol × Symbol) : Outcome Unit := do
  let n ← l.span p.1 p.2
  ensure (n < pageSize) (.defect (.gap p.1 p.2 n))

theorem checkSeams_eq (l : Layout) : l.checkSeams = seams.forM l.checkSeam := rfl

theorem checkSeam_eq {l : Layout} {p : Symbol × Symbol} {n : UInt64} (h : l.SpanIs p.1 p.2 n) :
    l.checkSeam p = ensure (n < pageSize) (.defect (.gap p.1 p.2 n)) := by
  rw [checkSeam, span_eq_ok_iff.mpr h, ok_bind]

theorem checkSeam_eq_ok_iff {l : Layout} {p : Symbol × Symbol} {u : Unit}
    (h : l.get p.1 ≤ l.get p.2) :
    l.checkSeam p = .ok u ↔ (l.get p.2).toNat < (l.get p.1).toNat + pageSize.toNat := by
  obtain ⟨n, -, span⟩ := exists_span_eq_ok h
  rw [checkSeam_eq span, ensure_eq_ok_iff, UInt64.lt_iff_toNat_lt]
  unfold SpanIs at span
  omega

theorem checkSeams_eq_ok_iff {l : Layout} {u : Unit}
    (h : ∀ p ∈ Symbol.neighbours, l.get p.1 ≤ l.get p.2) :
    l.checkSeams = .ok u ↔ ∀ p ∈ seams, (l.get p.2).toNat < (l.get p.1).toNat + pageSize.toNat := by
  rw [checkSeams_eq, forM_eq_ok_iff]
  exact forall₂_congr fun p hp => checkSeam_eq_ok_iff (h p (seams_subset_neighbours p hp))

theorem checkStackSize_eq_ok_iff {l : Layout} {u : Unit} :
    l.checkStackSize = .ok u ↔ l.bootStack.toNat + bootStackSize.toNat = l.bootStackTop.toNat := by
  simp only [checkStackSize, bind_eq_ok_iff, span_eq_ok_iff, ensure_eq_ok_iff]
  constructor
  · rintro ⟨n, hn, rfl⟩
    exact hn
  · intro hn
    exact ⟨_, hn, rfl⟩

theorem checkMemory_eq_ok_iff {l : Layout} {board : Board} {u : Unit} :
    l.checkMemory board = .ok u ↔ l.ekernel ≤ board.memoryEnd := ensure_eq_ok_iff

/-! ## All rules -/

theorem check_eq_ok_iff {l : Layout} {board : Board} {u : Unit} :
    l.check board = .ok u ↔ l.Obeys board := by
  simp only [check, bind_eq_ok_iff, checkBase_eq_ok_iff, checkOrder_eq_ok_iff,
    checkStackNonempty_eq_ok_iff, checkAlignment_eq_ok_iff, checkStackSize_eq_ok_iff,
    checkMemory_eq_ok_iff, exists_const]
  constructor
  · rintro ⟨⟨hskernel, hstext⟩, hord, hstack, hal, _, hseams, hsize, hmem⟩
    exact ⟨⟨hskernel, hstext, hord, hstack, hal, (checkSeams_eq_ok_iff hord).mp hseams, hsize⟩, hmem⟩
  · rintro ⟨⟨hskernel, hstext, hord, hstack, hal, hseams, hsize⟩, hmem⟩
    exact ⟨⟨hskernel, hstext⟩, hord, hstack, hal, (), (checkSeams_eq_ok_iff hord).mpr hseams, hsize, hmem⟩

theorem WellPlaced.obeys_iff {l : Layout} {board : Board} (h : l.WellPlaced board) :
    l.Obeys board ↔ l.ekernel ≤ board.memoryEnd :=
  ⟨fun hobeys => hobeys.memory, fun hmemory => ⟨h, hmemory⟩⟩

/-! ## Rule by rule -/

/-- The image and its code start at the base address of the board. -/
def Based (l : Layout) (board : Board) : Prop := l.skernel = board.base ∧ l.stext = board.base

def Ordered (l : Layout) : Prop := ∀ p ∈ Symbol.neighbours, l.get p.1 ≤ l.get p.2

/-- The layout obeys the rules up to the alignment of its boundaries. -/
structure OnPages (l : Layout) (board : Board) : Prop where
  based : l.Based board
  ordered : l.Ordered
  stackNonempty : l.bootStack ≠ l.bootStackTop
  aligned : ∀ s : Symbol, s.OnPageBoundary → (l.get s).PageAligned

section Steps

variable {l : Layout} {board : Board}

theorem Based.check_eq (h : l.Based board) :
    l.check board = (do
      l.checkOrder
      l.checkStackNonempty
      l.checkAlignment
      l.checkSeams
      l.checkStackSize
      l.checkMemory board) := by
  have hbase : l.checkBase board = .ok () := checkBase_eq_ok_iff.mpr h
  rw [check, hbase, ok_bind]

theorem Based.check_eq_of_ordered (h : l.Based board) (ordered : l.Ordered) :
    l.check board = (do
      l.checkStackNonempty
      l.checkAlignment
      l.checkSeams
      l.checkStackSize
      l.checkMemory board) := by
  have horder : l.checkOrder = .ok () := checkOrder_eq_ok_iff.mpr ordered
  rw [h.check_eq, horder, ok_bind]

theorem OnPages.check_eq (h : l.OnPages board) :
    l.check board = (do
      l.checkSeams
      l.checkStackSize
      l.checkMemory board) := by
  have hstack : l.checkStackNonempty = .ok () := checkStackNonempty_eq_ok_iff.mpr h.stackNonempty
  have halign : l.checkAlignment = .ok () := checkAlignment_eq_ok_iff.mpr h.aligned
  rw [h.based.check_eq_of_ordered h.ordered, hstack, ok_bind, halign, ok_bind]

theorem OnPages.dvd (h : l.OnPages board) (s : Symbol) (hs : s.OnPageBoundary := by decide) :
    4096 ∣ (l.get s).toNat :=
  Nat.dvd_of_mod_eq_zero (Address.pageAligned_iff.mp (h.aligned s hs))

/-- Two page boundaries that are less than a page apart are the same. -/
theorem OnPages.lt_iff_joined (h : l.OnPages board) {p : Symbol × Symbol} (hp : p ∈ seams) :
    (l.get p.2).toNat < (l.get p.1).toNat + pageSize.toNat ↔ l.get p.1 = l.get p.2 := by
  obtain ⟨hs, ht⟩ := onPageBoundary_of_mem_seams p hp
  have hle := Address.le_iff_toNat_le.mp (h.ordered p (seams_subset_neighbours p hp))
  have hdvds := h.dvd p.1 hs
  have hdvdt := h.dvd p.2 ht
  rw [← Address.toNat_inj]
  change _ < _ + 4096 ↔ _
  omega

theorem WellPlaced.onPages (h : l.WellPlaced board) : l.OnPages board :=
  ⟨⟨h.skernel, h.stext⟩, h.ordered, h.stackNonempty, h.aligned⟩

theorem WellPlaced.check_eq (h : l.WellPlaced board) : l.check board = l.checkMemory board := by
  have hseams : l.checkSeams = .ok () := (checkSeams_eq_ok_iff h.ordered).mpr h.seams
  have hsize : l.checkStackSize = .ok () := checkStackSize_eq_ok_iff.mpr h.stack
  rw [h.onPages.check_eq, hseams, ok_bind, hsize, ok_bind]

end Steps

/-! ## No faults -/

theorem not_faults_check (l : Layout) (board : Board) : ¬ (l.check board).Faults := by
  have hbase : ¬ (l.checkBase board).Faults := by
    unfold checkBase; split <;> simp [Outcome.not_faults_defect, Outcome.not_faults_ok]
  have horder : ¬ l.checkOrder.Faults := by
    unfold checkOrder; split <;> simp [Outcome.not_faults_defect, Outcome.not_faults_ok]
  have hstack : ¬ l.checkStackNonempty.Faults := Outcome.not_faults_ensure_defect
  have halign : ¬ l.checkAlignment.Faults := by
    unfold checkAlignment; split <;> simp [Outcome.not_faults_defect, Outcome.not_faults_ok]
  have hmemory : ¬ (l.checkMemory board).Faults := Outcome.not_faults_ensure_defect
  simp only [check, Outcome.faults_bind_iff, hbase, horder, hstack, halign, hmemory,
    checkOrder_eq_ok_iff, exists_const, false_or, or_false, and_false]
  have hspan (p : Symbol × Symbol) (hp : p ∈ Symbol.neighbours)
      (hord : ∀ p ∈ Symbol.neighbours, l.get p.1 ≤ l.get p.2) : ¬ (l.span p.1 p.2).Faults := by
    rw [faults_span_iff, Nat.not_lt]
    exact Address.le_iff_toNat_le.mp (hord p hp)
  rintro ⟨_, -, hord, _, -, _, -, hseams | ⟨_, -, hsize⟩⟩
  · refine Outcome.not_faults_forM (fun p hp => ?_) hseams
    simp only [Outcome.faults_bind_iff, hspan p (seams_subset_neighbours p hp) hord,
      Outcome.not_faults_ensure_defect, and_false, exists_false, or_false, not_false_eq_true]
  · simp only [checkStackSize, Outcome.faults_bind_iff, Outcome.not_faults_ensure_defect, and_false,
      exists_false, or_false] at hsize
    exact hspan (.bootStack, .bootStackTop) (by decide) hord hsize

end KernelImage.Layout
