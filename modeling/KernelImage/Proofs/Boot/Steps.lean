import KernelImage.Proofs.Boot.Hart
import KernelImage.Proofs.Outcome
import Mathlib.Data.List.Induction

/-!
# Lists of instructions that go on after a defect

`Hart.steps` executes instructions one after the other, also after one whose symbol has no address.
Such an instruction leaves no trace in the registers, so what they hold can be read off the other
ones: the last load, the last call, and the loads after it.
-/

namespace KernelImage.Boot

namespace Instr

/-- The stack pointer that the instruction loads. -/
def loaded? (resolve : Resolver) : Instr → Option Address
  | loadStackPointer symbol => resolve symbol
  | call _ => none

/-- Where the instruction transfers control to. -/
def target? (resolve : Resolver) : Instr → Option Address
  | loadStackPointer _ => none
  | call symbol => resolve symbol

theorem loaded?_of_unresolved {resolve : Resolver} {i : Instr} (h : resolve i.symbol = none) :
    i.loaded? resolve = none := by
  cases i with
  | loadStackPointer symbol => exact h
  | call symbol => rfl

theorem target?_of_unresolved {resolve : Resolver} {i : Instr} (h : resolve i.symbol = none) :
    i.target? resolve = none := by
  cases i with
  | loadStackPointer symbol => rfl
  | call symbol => exact h

end Instr

def loads (resolve : Resolver) (l : List Instr) : List Address := l.filterMap (Instr.loaded? resolve)

def targets (resolve : Resolver) (l : List Instr) : List Address :=
  l.filterMap (Instr.target? resolve)

theorem loads_append {resolve : Resolver} (l m : List Instr) :
    loads resolve (l ++ m) = loads resolve l ++ loads resolve m := List.filterMap_append

theorem targets_append {resolve : Resolver} (l m : List Instr) :
    targets resolve (l ++ m) = targets resolve l ++ targets resolve m := List.filterMap_append

namespace Hart

variable {resolve : Resolver} {hart : Hart} {i : Instr} {l : List Instr}

/-! ## One instruction -/

/-- The ways in which an instruction ends. -/
inductive Ends (resolve : Resolver) (hart : Hart) :
    Instr → Hart × Outcome (Option Address) → Prop where
  | unresolved {i : Instr} (h : resolve i.symbol = none) :
    Ends resolve hart i (hart, .defect (.unresolvedSymbol i.symbol))
  | overflow {i : Instr} {a : Address} (h : resolve i.symbol = some a)
    (top : 2 ^ 64 ≤ hart.pc.toNat + 8) :
    Ends resolve hart i ({ hart with sp := (i.loaded? resolve).or hart.sp }, .fault .overflow)
  | load {symbol : String} {sp next : Address} (h : resolve symbol = some sp)
    (hnext : next.toNat = hart.pc.toNat + 8) :
    Ends resolve hart (.loadStackPointer symbol) ({ hart with sp := some sp, pc := next }, .ok none)
  | call {symbol : String} {target link : Address} (h : resolve symbol = some target)
    (hlink : link.toNat = hart.pc.toNat + 8) :
    Ends resolve hart (.call symbol)
      ({ hart with ra := some link, pc := target }, .ok (some target))

theorem step_of_overflow {a : Address} (h : resolve i.symbol = some a)
    (htop : hart.pc.offset? 8 = none) :
    hart.step resolve i =
      ({ hart with sp := (i.loaded? resolve).or hart.sp }, .fault .overflow) := by
  cases i with
  | loadStackPointer symbol =>
    change resolve symbol = some a at h
    simp only [step, h, Instr.size, htop, Instr.loaded?, Option.some_or]
  | call symbol =>
    change resolve symbol = some a at h
    simp only [step, h, Instr.size, htop, Instr.loaded?, Option.none_or]

theorem ends_step (resolve : Resolver) (hart : Hart) (i : Instr) :
    Ends resolve hart i (hart.step resolve i) := by
  rcases h : resolve i.symbol with _ | a
  · rw [step_of_unresolved h]
    exact .unresolved h
  rcases hnext : hart.pc.offset? 8 with _ | next
  · rw [step_of_overflow h hnext]
    exact .overflow h (Address.offset?_eq_none_iff.mp hnext)
  · have hvalue : next.toNat = hart.pc.toNat + 8 := Address.offset?_eq_some_iff.mp hnext
    cases i with
    | loadStackPointer symbol =>
      have hstep : hart.step resolve (.loadStackPointer symbol) = _ := step_loadStackPointer h hnext
      rw [hstep]
      exact .load h hvalue
    | call symbol =>
      have hstep : hart.step resolve (.call symbol) = _ := step_call h hnext
      rw [hstep]
      exact .call h hvalue

theorem Ends.faults_iff {result : Hart × Outcome (Option Address)} (h : Ends resolve hart i result) :
    result.2.Faults ↔ (resolve i.symbol).isSome ∧ 2 ^ 64 ≤ hart.pc.toNat + 8 := by
  cases h with
  | unresolved h => simp [Outcome.not_faults_defect, h]
  | overflow h top => simpa [Outcome.faults_fault, h] using top
  | @load symbol sp next h hnext =>
    have hlt := next.toNat_lt
    simp only [Outcome.not_faults_ok, false_iff, not_and, Nat.not_le]
    omega
  | @call symbol target link h hlink =>
    have hlt := link.toNat_lt
    simp only [Outcome.not_faults_ok, false_iff, not_and, Nat.not_le]
    omega

theorem faults_step_iff :
    (hart.step resolve i).2.Faults ↔ (resolve i.symbol).isSome ∧ 2 ^ 64 ≤ hart.pc.toNat + 8 :=
  (ends_step resolve hart i).faults_iff

/-! ## A list of instructions -/

/-- No instruction of the list ends in a fault. -/
def Completes (resolve : Resolver) (hart : Hart) (l : List Instr) : Prop :=
  ∀ s ∈ hart.steps resolve l, ¬ s.2.Faults

instance (resolve : Resolver) (hart : Hart) (l : List Instr) :
    Decidable (hart.Completes resolve l) :=
  inferInstanceAs (Decidable (∀ s ∈ hart.steps resolve l, ¬ s.2.Faults))

/-- The state after the last instruction, or after the one that ends in a fault. -/
def final (resolve : Resolver) (hart : Hart) (l : List Instr) : Hart :=
  ((hart.steps resolve l).getLast?.map Prod.fst).getD hart

theorem steps_cons_of_faults (h : (hart.step resolve i).2.Faults) :
    hart.steps resolve (i :: l) = [hart.step resolve i] := by
  obtain ⟨f, hf⟩ := h
  rcases hstep : hart.step resolve i with ⟨after, outcome⟩
  rw [hstep] at hf
  change outcome = .error (.fault f) at hf
  subst hf
  simp only [steps, hstep]
  rfl

theorem steps_cons_of_not_faults (h : ¬ (hart.step resolve i).2.Faults) :
    hart.steps resolve (i :: l) =
      hart.step resolve i :: (hart.step resolve i).1.steps resolve l := by
  rcases hstep : hart.step resolve i with ⟨after, (d | f) | t⟩
  · simp only [steps, hstep]
  · rw [hstep] at h
    exact absurd (Outcome.faults_fault f) h
  · simp only [steps, hstep]

theorem final_nil : hart.final resolve [] = hart := rfl

theorem final_cons_of_faults (h : (hart.step resolve i).2.Faults) :
    hart.final resolve (i :: l) = (hart.step resolve i).1 := by
  rw [final, steps_cons_of_faults h]
  rfl

theorem final_cons_of_not_faults (h : ¬ (hart.step resolve i).2.Faults) :
    hart.final resolve (i :: l) = (hart.step resolve i).1.final resolve l := by
  rw [final, steps_cons_of_not_faults h, List.getLast?_cons, final]
  rcases (hart.step resolve i).1.steps resolve l |>.getLast? with _ | s <;> rfl

theorem completes_nil : hart.Completes resolve [] := by simp [Completes, steps]

theorem completes_cons_iff :
    hart.Completes resolve (i :: l) ↔
      ¬ (hart.step resolve i).2.Faults ∧ (hart.step resolve i).1.Completes resolve l := by
  by_cases h : (hart.step resolve i).2.Faults
  · simp [Completes, steps_cons_of_faults h, h]
  · simp [Completes, steps_cons_of_not_faults h, h]

variable {before after : List Instr}

theorem completes_append_iff :
    hart.Completes resolve (before ++ after) ↔
      hart.Completes resolve before ∧ (hart.final resolve before).Completes resolve after := by
  induction before generalizing hart with
  | nil => simp [completes_nil, final_nil]
  | cons i before ih =>
    rw [List.cons_append, completes_cons_iff, completes_cons_iff, ih]
    constructor
    · rintro ⟨hi, hbefore, hafter⟩
      rw [final_cons_of_not_faults hi]
      exact ⟨⟨hi, hbefore⟩, hafter⟩
    · rintro ⟨⟨hi, hbefore⟩, hafter⟩
      rw [final_cons_of_not_faults hi] at hafter
      exact ⟨hi, hbefore, hafter⟩

theorem steps_append (h : hart.Completes resolve before) :
    hart.steps resolve (before ++ after) =
      hart.steps resolve before ++ (hart.final resolve before).steps resolve after := by
  induction before generalizing hart with
  | nil => rfl
  | cons i before ih =>
    obtain ⟨hi, hbefore⟩ := completes_cons_iff.mp h
    rw [List.cons_append, steps_cons_of_not_faults hi, steps_cons_of_not_faults hi, ih hbefore,
      final_cons_of_not_faults hi, List.cons_append]

theorem final_append (h : hart.Completes resolve before) :
    hart.final resolve (before ++ after) = (hart.final resolve before).final resolve after := by
  rw [final, steps_append h, List.getLast?_append]
  nth_rewrite 2 [final]
  rcases ((hart.final resolve before).steps resolve after).getLast? with _ | s <;> rfl

theorem final_singleton : hart.final resolve [i] = (hart.step resolve i).1 := by
  by_cases h : (hart.step resolve i).2.Faults
  · exact final_cons_of_faults h
  · exact final_cons_of_not_faults h

theorem length_steps (h : hart.Completes resolve l) : (hart.steps resolve l).length = l.length := by
  induction l generalizing hart with
  | nil => rfl
  | cons i l ih =>
    obtain ⟨hi, hl⟩ := completes_cons_iff.mp h
    rw [steps_cons_of_not_faults hi, List.length_cons, ih hl, List.length_cons]

theorem getElem?_steps (h : hart.Completes resolve before) :
    (hart.steps resolve (before ++ i :: after))[before.length]? =
      some ((hart.final resolve before).step resolve i) := by
  rw [steps_append h, ← length_steps h, List.getElem?_append_right (Nat.le_refl _), Nat.sub_self]
  by_cases hi : ((hart.final resolve before).step resolve i).2.Faults
  · rw [steps_cons_of_faults hi]
    rfl
  · rw [steps_cons_of_not_faults hi]
    rfl

/-! ## Instructions without an address -/

/-- The instructions that have an address to refer to. -/
def resolved (resolve : Resolver) (l : List Instr) : List Instr :=
  l.filter fun i => (resolve i.symbol).isSome

theorem final_resolved : hart.final resolve (resolved resolve l) = hart.final resolve l := by
  induction l generalizing hart with
  | nil => rfl
  | cons i l ih =>
    rcases h : resolve i.symbol with _ | a
    · have hstep : hart.step resolve i = (hart, .defect (.unresolvedSymbol i.symbol)) :=
        step_of_unresolved h
      have hi : ¬ (hart.step resolve i).2.Faults := by
        rw [hstep]
        exact Outcome.not_faults_defect _
      rw [final_cons_of_not_faults hi, hstep, resolved, List.filter_cons_of_neg (by simp [h])]
      exact ih
    · rw [resolved, List.filter_cons_of_pos (by simp [h])]
      by_cases hi : (hart.step resolve i).2.Faults
      · rw [final_cons_of_faults hi, final_cons_of_faults hi]
      · rw [final_cons_of_not_faults hi, final_cons_of_not_faults hi]
        exact ih

/-! ## The registers -/

/-- Where control has been since it last went elsewhere. -/
inductive Control (resolve : Resolver) (entry : Address) (l : List Instr) (hart : Hart) : Prop where
  | entered (h : targets resolve l = []) (ra : hart.ra = none)
    (pc : hart.pc.toNat = entry.toNat + 8 * (loads resolve l).length)
  | called {before after : List Instr} {symbol : String} {target link : Address}
    (split : l = before ++ .call symbol :: after) (h : resolve symbol = some target)
    (last : targets resolve after = []) (ra : hart.ra = some link)
    (link_eq : link.toNat = ((start entry).final resolve before).pc.toNat + 8)
    (pc : hart.pc.toNat = target.toNat + 8 * (loads resolve after).length)

/-- What the registers hold after instructions that were all executed from `entry` on. -/
structure Registers (resolve : Resolver) (entry : Address) (l : List Instr) (hart : Hart) : Prop where
  sp : hart.sp = (loads resolve l).getLast?
  control : Control resolve entry l hart

variable {entry : Address} {next : Hart}

theorem Control.extend (h : Control resolve entry l hart) (hi : i.target? resolve = none)
    (ra : next.ra = hart.ra)
    (pc : next.pc.toNat = hart.pc.toNat + 8 * (loads resolve [i]).length) :
    Control resolve entry (l ++ [i]) next := by
  have hnone : targets resolve [i] = [] := by simp [targets, hi]
  cases h with
  | entered htargets hra hpc =>
    refine .entered ?_ (ra.trans hra) ?_
    · rw [targets_append, htargets, hnone, List.append_nil]
    · rw [pc, hpc, loads_append, List.length_append]
      omega
  | @called before after symbol target link split hsymbol hlast hra hlink hpc =>
    have hsplit : l ++ [i] = before ++ .call symbol :: (after ++ [i]) := by
      rw [split, List.append_assoc, List.cons_append]
    refine .called hsplit hsymbol ?_ (ra.trans hra) hlink ?_
    · rw [targets_append, hlast, hnone, List.append_nil]
    · rw [pc, hpc, loads_append, List.length_append]
      omega

theorem Registers.step (h : Registers resolve entry l ((start entry).final resolve l))
    (hi : ¬ (((start entry).final resolve l).step resolve i).2.Faults) :
    Registers resolve entry (l ++ [i]) (((start entry).final resolve l).step resolve i).1 := by
  obtain ⟨hsp, hcontrol⟩ := h
  have hends := ends_step resolve ((start entry).final resolve l) i
  generalize ((start entry).final resolve l).step resolve i = result at hi hends ⊢
  cases hends with
  | unresolved hsymbol =>
    have hloads : loads resolve [i] = [] := by simp [loads, Instr.loaded?_of_unresolved hsymbol]
    refine ⟨?_, hcontrol.extend (Instr.target?_of_unresolved hsymbol) rfl ?_⟩
    · rw [loads_append, hloads, List.append_nil, hsp]
    · rw [hloads]
      rfl
  | overflow hsymbol top => exact absurd (Outcome.faults_fault .overflow) hi
  | @load symbol sp next hsymbol hnext =>
    have hloads : loads resolve [.loadStackPointer symbol] = [sp] := by
      simp [loads, Instr.loaded?, hsymbol]
    refine ⟨?_, hcontrol.extend rfl rfl ?_⟩
    · rw [loads_append, hloads, List.getLast?_concat]
    · rw [hloads, hnext]
      rfl
  | @call symbol target link hsymbol hlink =>
    have hloads : loads resolve [.call symbol] = [] := rfl
    refine ⟨?_, .called rfl hsymbol rfl rfl hlink rfl⟩
    rw [loads_append, hloads, List.append_nil, hsp]

theorem registers_of_completes (h : (start entry).Completes resolve l) :
    Registers resolve entry l ((start entry).final resolve l) := by
  induction l using List.reverseRecOn with
  | nil => exact ⟨rfl, .entered rfl rfl rfl⟩
  | append_singleton l i ih =>
    obtain ⟨hl, hi⟩ := completes_append_iff.mp h
    rw [completes_cons_iff] at hi
    rw [final_append hl, final_singleton]
    exact (ih hl).step hi.1

/-! ## Together -/

structure ExactRun (resolve : Resolver) (entry : Address) (l : List Instr) : Prop where
  /-- Each instruction is executed where those before it have left the hart. -/
  step : ∀ before i after, l = before ++ i :: after → (start entry).Completes resolve before →
    ((start entry).steps resolve l)[before.length]? =
      some (((start entry).final resolve before).step resolve i)
  unresolved : ∀ (hart : Hart) (i : Instr), resolve i.symbol = none →
    hart.step resolve i = (hart, .defect (.unresolvedSymbol i.symbol))
  faults_iff : ∀ (hart : Hart) (i : Instr), (hart.step resolve i).2.Faults ↔
    (resolve i.symbol).isSome ∧ 2 ^ 64 ≤ hart.pc.toNat + 8
  resolved : (start entry).final resolve (resolved resolve l) = (start entry).final resolve l
  registers : (start entry).Completes resolve l →
    Registers resolve entry l ((start entry).final resolve l)

/-- A list of instructions does what those of its instructions do that have an address. -/
theorem exactRun (resolve : Resolver) (entry : Address) (l : List Instr) :
    ExactRun resolve entry l where
  step := by
    rintro before i after rfl h
    exact getElem?_steps h
  unresolved := fun _ _ => step_of_unresolved
  faults_iff := fun _ _ => faults_step_iff
  resolved := final_resolved
  registers := registers_of_completes

/-- The kernel is called twice, and a symbol without an address is referred to in between. -/
def calledTwice : List Instr :=
  [.loadStackPointer "boot_stack_top", .call "rust_main", .call "main", .loadStackPointer "sbss",
    .call "rust_main", .loadStackPointer "boot_stack_top"]

def calledTwiceResolver : Resolver := fun name =>
  if name = "boot_stack_top" then some ⟨0x80215000⟩
  else if name = "sbss" then some ⟨0x80215008⟩
  else if name = "rust_main" then some ⟨0x80202000⟩
  else none

theorem exactRun_calledTwice :
    (start ⟨0x80200000⟩).Completes calledTwiceResolver calledTwice ∧
      (start ⟨0x80200000⟩).final calledTwiceResolver calledTwice =
        ⟨⟨0x80202008⟩, some ⟨0x80215000⟩, some ⟨0x80202010⟩⟩ ∧
      ExactRun calledTwiceResolver ⟨0x80200000⟩ calledTwice :=
  ⟨by decide +kernel, by decide +kernel, exactRun calledTwiceResolver ⟨0x80200000⟩ calledTwice⟩

end Hart

end KernelImage.Boot
