import KernelImage.Proofs.Script.Link
import KernelImage.Script.Image
import Mathlib.Algebra.Ring.Nat

/-!
# The places of input sections

A script names its input sections in ten places, and the first place that takes a section gets it. At
each place the location counter advances by the sizes of the sections that it gets.
-/

namespace KernelImage.Script

/-- A place for input sections, in the order of the script. -/
inductive Slot where
  | entry
  | trampoline
  | text
  | rodata
  | srodata
  | data
  | sdata
  | stack
  | bss
  | sbss
deriving DecidableEq

namespace Slot

def all : List Slot :=
  [entry, trampoline, text, rodata, srodata, data, sdata, stack, bss, sbss]

def patterns : Slot → List String
  | entry => [".text.entry"]
  | trampoline => [".text.trampoline"]
  | text => [".text", ".text.*"]
  | rodata => [".rodata", ".rodata.*"]
  | srodata => [".srodata", ".srodata.*"]
  | data => [".data", ".data.*"]
  | sdata => [".sdata", ".sdata.*"]
  | stack => [".bss.stack"]
  | bss => [".bss", ".bss.*"]
  | sbss => [".sbss", ".sbss.*"]

def base : Slot → String
  | entry => ".text.entry"
  | trampoline => ".text.trampoline"
  | text => ".text"
  | rodata => ".rodata"
  | srodata => ".srodata"
  | data => ".data"
  | sdata => ".sdata"
  | stack => ".bss.stack"
  | bss => ".bss"
  | sbss => ".sbss"

/-- The name may be continued after a dot. -/
def isFamily : Slot → Bool
  | entry => false
  | trampoline => false
  | stack => false
  | _ => true

def Takes (t : Slot) (name : String) : Prop :=
  name = t.base ∨ t.isFamily ∧ (t.base ++ ".").toList <+: name.toList

instance (t : Slot) (name : String) : Decidable (t.Takes name) :=
  inferInstanceAs (Decidable (name = t.base ∨ t.isFamily ∧ (t.base ++ ".").toList <+: name.toList))

/-- The place that gets a section with this name. -/
def of? (name : String) : Option Slot := all.find? fun t => t.Takes name

theorem matchedBy_patterns_iff (t : Slot) (i : InputSection) :
    i.MatchedBy t.patterns ↔ t.Takes i.name := by
  have hstar : '*' ∉ t.base.toList := by cases t <;> decide
  have hdot : '*' ∉ (t.base ++ ".").toList := by cases t <;> decide
  have hpatterns : t.patterns = if t.isFamily then [t.base, t.base ++ "." ++ "*"] else [t.base] := by
    cases t <;> decide
  rw [Takes, InputSection.MatchedBy, hpatterns]
  have hexact : globMatches t.base.toList i.name.toList ↔ i.name = t.base := by
    rw [globMatches_iff_eq hstar, String.toList_inj]
  have hprefix : globMatches (t.base ++ "." ++ "*").toList i.name.toList ↔
      (t.base ++ ".").toList <+: i.name.toList := by
    have hlist : (t.base ++ "." ++ "*").toList = (t.base ++ ".").toList ++ ['*'] := by simp
    rw [hlist, globMatches_append_star_iff hdot]
  cases t.isFamily with
  | false => simp [hexact]
  | true =>
    rw [if_pos rfl, List.any_cons, List.any_cons, List.any_nil, Bool.or_false, Bool.or_eq_true,
      hexact, hprefix]
    simp only [true_and]

theorem not_matchedBy_patterns_iff (t : Slot) (i : InputSection) :
    (!i.MatchedBy t.patterns) ↔ ¬ t.Takes i.name := by
  rw [← matchedBy_patterns_iff, Bool.not_eq_true', Bool.not_eq_true]

theorem of?_eq_some_iff {done rest : List Slot} {t : Slot} (h : all = done ++ t :: rest)
    (ht : t ∉ done) {name : String} :
    of? name = some t ↔ t.Takes name ∧ ∀ u ∈ done, ¬ u.Takes name := by
  rw [of?, h, List.find?_append]
  constructor
  · intro hfind
    rcases hdone : done.find? (fun u => u.Takes name) with _ | u
    · rw [hdone, Option.none_or] at hfind
      have htakes := List.find?_some hfind
      exact ⟨by simpa using htakes, by simpa using hdone⟩
    · rw [hdone, Option.some_or, Option.some.injEq] at hfind
      exact absurd (hfind ▸ List.mem_of_find?_eq_some hdone) ht
  · rintro ⟨htakes, hdone⟩
    have hnone : done.find? (fun u => u.Takes name) = none := by simpa using hdone
    rw [hnone, Option.none_or, List.find?_cons_of_pos (by simpa using htakes)]

end Slot

/-! ## Placing -/

/-- The sections that none of these places takes. -/
def pendingAfter (sections : List InputSection) (done : List Slot) : List InputSection :=
  sections.filter fun i => ∀ t ∈ done, ¬ t.Takes i.name

theorem place_patterns {s : LinkState} {sections : List InputSection} {done rest : List Slot}
    {t : Slot} (hs : s.pending = pendingAfter sections done) (h : Slot.all = done ++ t :: rest)
    (ht : t ∉ done) :
    s.place t.patterns =
      ({ s with pending := pendingAfter sections (done ++ [t]) } : LinkState).emitAll
        (sections.filter fun i => Slot.of? i.name = some t) := by
  have hrest : (s.pending.filter fun i => !i.MatchedBy t.patterns) =
      pendingAfter sections (done ++ [t]) := by
    rw [hs, pendingAfter, pendingAfter, List.filter_filter]
    congr 1
    funext i
    rw [Bool.eq_iff_iff, Bool.and_eq_true, Slot.not_matchedBy_patterns_iff, decide_eq_true_eq,
      decide_eq_true_eq]
    simp only [List.mem_append, List.mem_singleton]
    constructor
    · rintro ⟨htakes, hdone⟩ u (hu | rfl)
      · exact hdone u hu
      · exact htakes
    · intro hall
      exact ⟨hall t (.inr rfl), fun u hu => hall u (.inl hu)⟩
  have hmatched : (s.pending.filter fun i => i.MatchedBy t.patterns) =
      sections.filter fun i => Slot.of? i.name = some t := by
    rw [hs, pendingAfter, List.filter_filter]
    congr 1
    funext i
    rw [Bool.eq_iff_iff, Bool.and_eq_true, Slot.matchedBy_patterns_iff, decide_eq_true_eq,
      decide_eq_true_eq, Slot.of?_eq_some_iff h ht]
  rw [LinkState.place, LinkState.discard, hrest, hmatched]

/-- A section of an object file, of which only the size counts. -/
def InputSection.ofSize (o : String × Nat) : InputSection := ⟨o.1, [.space o.2]⟩

theorem emitAll_ofSize (objects : List (String × Nat)) (s : LinkState) :
    s.emitAll (objects.map InputSection.ofSize) =
      { s with here := s.here + (objects.map Prod.snd).sum } := by
  induction objects generalizing s with
  | nil => rfl
  | cons o os ih =>
    have hstep : s.emitAll ((o :: os).map InputSection.ofSize) =
        ({ s with here := s.here + o.2 } : LinkState).emitAll (os.map InputSection.ofSize) := rfl
    rw [hstep, ih, List.map_cons, List.sum_cons, Nat.add_assoc]

def totalSize (objects : List (String × Nat)) (t : Slot) : Nat :=
  ((objects.filter fun o => Slot.of? o.1 = some t).map Prod.snd).sum

theorem filter_map_ofSize (objects : List (String × Nat)) (t : Slot) :
    ((objects.map InputSection.ofSize).filter fun i => Slot.of? i.name = some t) =
      (objects.filter fun o => Slot.of? o.1 = some t).map InputSection.ofSize := by
  rw [List.filter_map]
  rfl

end KernelImage.Script
