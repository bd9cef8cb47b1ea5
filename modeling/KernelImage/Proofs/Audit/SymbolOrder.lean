import KernelImage.Proofs.Audit.SymbolTable
import Mathlib.Data.Fintype.Perm

/-!
# What does not matter in a symbol table

The order of the entries does not matter to an audit as long as no boundary is named twice. Of the
fields of an entry only two matter: the name, and the value if the name is that of a boundary.
-/

namespace KernelImage

namespace Elf.File

variable {f g : File} {symtab : SectionHeader} {bytes other : ByteArray} {start stop : Nat}
  {changed : Nat → Prop}

/-- The other bytes hold entry `k` of the table at the place of entry `σ k`, and all else in place. -/
structure Reorders (symtab : SectionHeader)
    (σ : Equiv.Perm (Fin (symtab.size / symbolEntrySize))) (bytes other : ByteArray) : Prop where
  size : other.size = bytes.size
  entries : ∀ k, ∀ j < symbolEntrySize,
    other[symtab.offset + (σ k).val * symbolEntrySize + j]? =
      bytes[symtab.offset + k.val * symbolEntrySize + j]?
  rest : ∀ i, i < symtab.offset ∨ symtab.offset + symtab.size ≤ i → other[i]? = bytes[i]?

/--
The other bytes differ at most in one field of some entries, from byte `start` up to byte `stop` of
each of them.
-/
structure Overwrites (symtab : SectionHeader) (start stop : Nat) (changed : Nat → Prop)
    (bytes other : ByteArray) : Prop where
  size : other.size = bytes.size
  field : ∀ i, other[i]? ≠ bytes[i]? → ∃ k < symtab.size / symbolEntrySize, changed k ∧
    symtab.offset + k * symbolEntrySize + start ≤ i ∧ i < symtab.offset + k * symbolEntrySize + stop

theorem Overwrites.mono {changed' : Nat → Prop} (h : Overwrites symtab start stop changed bytes other)
    (hsub : ∀ k, changed k → changed' k) : Overwrites symtab start stop changed' bytes other := by
  refine ⟨h.size, fun i hne => ?_⟩
  obtain ⟨k, hk, hchanged, hin⟩ := h.field i hne
  exact ⟨k, hk, hsub k hchanged, hin⟩

theorem Reorders.alikeBeside {σ : Equiv.Perm (Fin (symtab.size / symbolEntrySize))}
    (h : Reorders symtab σ f.bytes other) (own : f.OwnSymtab symtab) :
    f.AlikeBeside ⟨other, f.header⟩ := by
  refine ⟨rfl, h.size, fun i hi => h.rest i ?_⟩
  by_contra hin
  push Not at hin
  exact own.secluded i hin.1 hin.2 hi

theorem Reorders.entryAt_eq {σ : Equiv.Perm (Fin (symtab.size / symbolEntrySize))}
    (h : Reorders symtab σ f.bytes g.bytes) (k : Fin (symtab.size / symbolEntrySize)) :
    g.entryAt symtab (σ k).val = f.entryAt symtab k.val :=
  SymbolEntry.of_move (h.entries k)

theorem Reorders.perm {σ : Equiv.Perm (Fin (symtab.size / symbolEntrySize))}
    (h : Reorders symtab σ f.bytes g.bytes) : (g.entries symtab).Perm (f.entries symtab) := by
  have hlist (e : File) : e.entries symtab =
      List.ofFn fun k : Fin (symtab.size / symbolEntrySize) => e.entryAt symtab k.val := by
    rw [File.entries, List.ofFn_eq_map, ← List.map_coe_finRange_eq_range, List.map_map]
    rfl
  have hmoved : (fun k => g.entryAt symtab (σ k).val) = fun k => f.entryAt symtab k.val :=
    funext h.entryAt_eq
  rw [hlist, hlist, ← hmoved]
  exact (Equiv.Perm.ofFn_comp_perm σ _).symm

theorem Overwrites.alikeBeside (h : Overwrites symtab start stop changed f.bytes other) (hstop : stop ≤ symbolEntrySize)
    (own : f.OwnSymtab symtab) : f.AlikeBeside ⟨other, f.header⟩ := by
  refine ⟨rfl, h.size, fun i hi => ?_⟩
  by_contra hne
  obtain ⟨k, hk, -, lower, upper⟩ := h.field i hne
  unfold symbolEntrySize at *
  exact own.secluded i (by omega) (by omega) hi

theorem Overwrites.getElem?_eq (h : Overwrites symtab start stop changed bytes other)
    (hstop : stop ≤ symbolEntrySize) {k j : Nat} (hj : j < symbolEntrySize) (hout : ¬ changed k ∨ j < start ∨ stop ≤ j) :
    other[symtab.offset + k * symbolEntrySize + j]? =
      bytes[symtab.offset + k * symbolEntrySize + j]? := by
  by_contra hne
  obtain ⟨k', -, hchanged, lower, upper⟩ := h.field _ hne
  unfold symbolEntrySize at *
  obtain rfl : k' = k := by omega
  rcases hout with hout | hout
  · exact hout hchanged
  · omega

theorem Overwrites.nameOffset_eq (h : Overwrites symtab start stop changed f.bytes g.bytes)
    (hstart : 4 ≤ start) (hstop : stop ≤ symbolEntrySize) (k : Nat) :
    (g.entryAt symtab k).nameOffset = (f.entryAt symtab k).nameOffset := by
  refine littleEndian_move fun j hj => h.getElem?_eq hstop ?_ (.inr (.inl (by omega)))
  unfold symbolEntrySize
  omega

theorem Overwrites.value_eq (h : Overwrites symtab start stop changed f.bytes g.bytes)
    (hstop : stop ≤ symbolEntrySize) {k : Nat} (hout : ¬ changed k ∨ stop ≤ 8 ∨ 16 ≤ start) :
    (g.entryAt symtab k).value = (f.entryAt symtab k).value := by
  refine congrArg Address.ofNat (littleEndian_move fun j hj => ?_)
  rw [Nat.add_assoc _ 8 j]
  refine h.getElem?_eq hstop ?_ (hout.imp_right fun hout => by omega)
  unfold symbolEntrySize
  omega

/-! ## Making such bytes -/

theorem div_place {k j : Nat} (hj : j < symbolEntrySize) :
    (symtab.offset + k * symbolEntrySize + j - symtab.offset) / symbolEntrySize = k := by
  unfold symbolEntrySize at *
  omega

theorem mod_place {k j : Nat} (hj : j < symbolEntrySize) :
    (symtab.offset + k * symbolEntrySize + j - symtab.offset) % symbolEntrySize = j := by
  unfold symbolEntrySize at *
  omega

/-- Where the byte at `i` comes from when the entries move by `σ`. -/
def source (symtab : SectionHeader) (σ : Equiv.Perm (Fin (symtab.size / symbolEntrySize)))
    (i : Nat) : Nat :=
  if h : symtab.offset ≤ i ∧ (i - symtab.offset) / symbolEntrySize < symtab.size / symbolEntrySize then
    symtab.offset + (σ.symm ⟨_, h.2⟩).val * symbolEntrySize + (i - symtab.offset) % symbolEntrySize
  else
    i

def reorder (symtab : SectionHeader) (σ : Equiv.Perm (Fin (symtab.size / symbolEntrySize)))
    (bytes : ByteArray) : ByteArray :=
  tabulate bytes.size fun i => bytes[source symtab σ i]?.getD 0

theorem source_place {σ : Equiv.Perm (Fin (symtab.size / symbolEntrySize))}
    (k : Fin (symtab.size / symbolEntrySize)) {j : Nat} (hj : j < symbolEntrySize) :
    source symtab σ (symtab.offset + (σ k).val * symbolEntrySize + j) =
      symtab.offset + k.val * symbolEntrySize + j := by
  unfold source
  simp only [div_place hj, mod_place hj, (σ k).isLt, Fin.eta, Equiv.symm_apply_apply]
  rw [dif_pos ⟨by omega, trivial⟩]

theorem source_of_outside {σ : Equiv.Perm (Fin (symtab.size / symbolEntrySize))} {i : Nat}
    (h : i < symtab.offset ∨ symtab.offset + symtab.size ≤ i) : source symtab σ i = i := by
  unfold source symbolEntrySize
  rw [dif_neg (by omega)]

theorem reorders_reorder (hrange : HasRange bytes symtab.offset symtab.size)
    (σ : Equiv.Perm (Fin (symtab.size / symbolEntrySize))) :
    Reorders symtab σ bytes (reorder symtab σ bytes) := by
  have hin (k : Fin (symtab.size / symbolEntrySize)) {j : Nat} (hj : j < symbolEntrySize) :
      symtab.offset + k.val * symbolEntrySize + j < bytes.size := by
    have hk := k.isLt
    unfold HasRange symbolEntrySize at *
    omega
  have hget {i : Nat} (hi : i < bytes.size) : some (bytes[i]?.getD 0) = bytes[i]? := by
    rw [getElem?_eq_some_of_lt hi, Option.getD_some]
  refine ⟨size_tabulate _ _, fun k j hj => ?_, fun i hi => ?_⟩
  · rw [reorder, getElem?_tabulate, if_pos (hin _ hj), source_place k hj, hget (hin k hj)]
  · rw [reorder, getElem?_tabulate, source_of_outside hi]
    split
    case isTrue hlt => exact hget hlt
    case isFalse hlt => exact (getElem?_neg bytes i hlt).symm

/-- Fills one field of the entries with the property with the byte `b`. -/
def overwrite (symtab : SectionHeader) (start stop : Nat) (changed : Nat → Prop)
    [DecidablePred changed] (b : UInt8) (bytes : ByteArray) : ByteArray :=
  tabulate bytes.size fun i =>
    if symtab.offset ≤ i ∧ (i - symtab.offset) / symbolEntrySize < symtab.size / symbolEntrySize ∧
        changed ((i - symtab.offset) / symbolEntrySize) ∧
        start ≤ (i - symtab.offset) % symbolEntrySize ∧
        (i - symtab.offset) % symbolEntrySize < stop then b
    else bytes[i]?.getD 0

theorem overwrites_overwrite [DecidablePred changed] (b : UInt8) :
    Overwrites symtab start stop changed bytes (overwrite symtab start stop changed b bytes) := by
  refine ⟨size_tabulate _ _, fun i hne => ?_⟩
  rw [overwrite, getElem?_tabulate] at hne
  by_cases hi : i < bytes.size
  · rw [if_pos hi, getElem?_eq_some_of_lt hi, Option.getD_some] at hne
    split at hne
    case isTrue hfield =>
      obtain ⟨hlower, hk, hchanged, hstart, hstop⟩ := hfield
      unfold symbolEntrySize at *
      exact ⟨_, hk, hchanged, by omega, by omega⟩
    case isFalse => exact absurd rfl hne
  · rw [if_neg hi, getElem?_neg bytes i hi] at hne
    exact absurd rfl hne

theorem getElem?_overwrite [DecidablePred changed] {b : UInt8}
    (hrange : HasRange bytes symtab.offset symtab.size) {k j : Nat}
    (hk : k < symtab.size / symbolEntrySize) (hj : j < symbolEntrySize) (hchanged : changed k)
    (hstart : start ≤ j) (hstop : j < stop) :
    (overwrite symtab start stop changed b bytes)[symtab.offset + k * symbolEntrySize + j]? =
      some b := by
  have hin : symtab.offset + k * symbolEntrySize + j < bytes.size := by
    unfold HasRange symbolEntrySize at *
    omega
  rw [overwrite, getElem?_tabulate, if_pos hin, div_place hj, mod_place hj,
    if_pos ⟨by omega, hk, hchanged, hstart, hstop⟩]

end Elf.File

namespace Audit

open Elf

variable {f : File} {symtab : SectionHeader}

theorem distinct_of_namedOnce {names : ByteArray} (hnames : f.NamesSymbols symtab names)
    {name : String} (once : f.NamedOnce symtab name) :
    Distinct names (f.entries symtab) name := by
  unfold Distinct File.entries
  rw [List.pairwise_map]
  refine List.Pairwise.imp_of_mem ?_ List.pairwise_lt_range
  rintro j k hj hk hlt ⟨hnamej, hnamek⟩
  have := once j (List.mem_range.mp hj) k (List.mem_range.mp hk) (hnames.carries hnamej)
    (hnames.carries hnamek)
  omega

theorem ofImage_of_overwrites (hd : FileHeader.Decodes f.bytes f.header)
    (own : f.OwnSymtab symtab) {start stop : Nat} (hstart : 4 ≤ start)
    (hstop : stop ≤ symbolEntrySize) {changed : Nat → Prop}
    (hkeep : (stop ≤ 8 ∨ 16 ≤ start) ∨ ∀ k, changed k → ∀ s : Symbol, ¬ f.Carries symtab k s.name)
    {other : ByteArray} (h : File.Overwrites symtab start stop changed f.bytes other)
    (board : Board) : ofImage other board = ofImage f.bytes board := by
  have h' : File.Overwrites symtab start stop changed f.bytes (⟨other, f.header⟩ : File).bytes := h
  refine ofImage_congr_entries hd own (h.alikeBeside hstop own) (fun names hnames => ?_) board
  apply readLayout_of_sameBoundaries
  unfold File.entries
  rw [List.forall₂_map_left_iff, List.forall₂_map_right_iff, List.forall₂_same]
  intro k _
  refine ⟨h'.nameOffset_eq hstart hstop k, fun ⟨s, hname⟩ => h'.value_eq hstop ?_⟩
  rcases hkeep with hkeep | hkeep
  · exact .inr hkeep
  · exact .inl fun hchanged => hkeep k hchanged s (hnames.carries hname)

/--
The order of the symbol table does not matter if no boundary is named twice, and neither does the
value of an entry that is not named as a boundary.
-/
theorem ofImage_of_symbolOrder {bytes : ByteArray} (hf : File.ofBytes bytes = .ok f)
    (own : f.OwnSymtab symtab) (board : Board) :
    ((∀ s : Symbol, f.NamedOnce symtab s.name) → ∀ σ other, File.Reorders symtab σ bytes other →
      ofImage other board = ofImage bytes board) ∧
    ∀ other,
      File.Overwrites symtab 8 16 (fun k => ∀ s : Symbol, ¬ f.Carries symtab k s.name) bytes other →
        ofImage other board = ofImage bytes board := by
  obtain ⟨rfl, hd⟩ := File.ofBytes_eq_ok_iff.mp hf
  constructor
  · intro once σ other h
    have h' : File.Reorders symtab σ f.bytes (⟨other, f.header⟩ : File).bytes := h
    refine ofImage_congr_entries hd own (h.alikeBeside own) (fun names hnames => ?_) board
    exact readLayout_perm h'.perm fun s => distinct_of_namedOnce hnames (once s)
  · intro other h
    exact ofImage_of_overwrites hd own (by decide) (by decide) (.inr fun k hk => hk) h board

/-- The header of the symbol table of `smallImage`. -/
def smallSymtab : SectionHeader := ⟨12, 2, 0, ⟨0⟩, 80, 384⟩

theorem findSection?_smallImage : findSection? smallImage.kept ".symtab" = some smallSymtab := by
  decide +kernel

theorem ownSymtab_smallImage : smallImage.file.OwnSymtab smallSymtab :=
  Image.ownSymtab encodable_smallImage (by decide +kernel) findSection?_smallImage

theorem symbolOrder_smallImage :
    ofImage (File.reorder smallSymtab (Equiv.swap ⟨1, by decide⟩ ⟨15, by decide⟩) smallImage.encode)
        .qemu = .ok smallAudit ∧
      ofImage (File.overwrite smallSymtab 8 16 (· = 0) 1 smallImage.encode) .qemu = .ok smallAudit := by
  have hfile : File.ofBytes smallImage.encode = .ok smallImage.file :=
    File.ofBytes_eq_ok_iff.mpr ⟨rfl, smallImage.decodes⟩
  have hname {k : Nat} (hk : k < smallSymtab.size / symbolEntrySize) {name : String}
      (hc : smallImage.file.Carries smallSymtab k name) :
      (smallImage.readSymbols.map NamedSymbol.name)[k]? = some name :=
    Image.getElem?_of_carries encodable_smallImage (by decide +kernel) findSection?_smallImage hk hc
  obtain ⟨horder, hvalue⟩ := ofImage_of_symbolOrder hfile ownSymtab_smallImage .qemu
  constructor
  · refine (horder (fun s j hj k hk hcj hck => ?_) _ _ (File.reorders_reorder ?_ _)).trans
      ofImage_smallImage
    · have hnodup : (smallImage.readSymbols.map NamedSymbol.name).Nodup := by decide +kernel
      exact (List.getElem?_inj hj hnodup).mp ((hname hj hcj).trans (hname hk hck).symm)
    · exact (Image.tableOk encodable_smallImage).hasRange_of_mem ownSymtab_smallImage.first.mem
        (by decide)
  · refine (hvalue _ ((File.overwrites_overwrite 1).mono ?_)).trans ofImage_smallImage
    rintro k rfl s hc
    have hempty : some "" = some s.name := hname (by decide) hc
    exact absurd (Option.some.inj hempty) (by cases s <;> decide)

end Audit

end KernelImage
