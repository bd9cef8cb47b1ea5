import KernelImage.Proofs.Boot.Assembly
import KernelImage.Proofs.Script.Parser

/-!
# What a linker does with a script

`link` follows a script with a location counter in natural numbers. A pattern takes the input sections
that are still pending and places them one behind the other, without padding of its own.
-/

namespace KernelImage.Script

/-! ## Patterns -/

/-- The pattern matches the name. A star stands for any characters. -/
def globMatches : List Char → List Char → Bool
  | [], [] => true
  | [], _ :: _ => false
  | p :: ps, [] => p = '*' && globMatches ps []
  | p :: ps, c :: cs =>
    if p = '*' then globMatches ps (c :: cs) || globMatches (p :: ps) cs
    else p = c && globMatches ps cs
termination_by p c => p.length + c.length

theorem globMatches_star (cs : List Char) : globMatches ['*'] cs := by
  induction cs with
  | nil => simp [globMatches]
  | cons c cs ih => rw [globMatches, if_pos rfl, ih, Bool.or_true]

theorem globMatches_iff_eq {ps cs : List Char} (h : '*' ∉ ps) : globMatches ps cs ↔ cs = ps := by
  induction ps generalizing cs with
  | nil => cases cs <;> simp [globMatches]
  | cons p ps ih =>
    rw [List.mem_cons, not_or] at h
    obtain ⟨hp, hps⟩ := h
    cases cs with
    | nil => simp [globMatches, Ne.symm hp]
    | cons c cs =>
      rw [globMatches, if_neg (Ne.symm hp), Bool.and_eq_true, decide_eq_true_eq, ih hps,
        List.cons.injEq]
      exact and_congr_left fun _ => eq_comm

theorem globMatches_append_star_iff {ps cs : List Char} (h : '*' ∉ ps) :
    globMatches (ps ++ ['*']) cs ↔ ps <+: cs := by
  induction ps generalizing cs with
  | nil => simp [globMatches_star]
  | cons p ps ih =>
    rw [List.mem_cons, not_or] at h
    obtain ⟨hp, hps⟩ := h
    cases cs with
    | nil => simp [globMatches, Ne.symm hp]
    | cons c cs => simp [globMatches, Ne.symm hp, ih hps, List.cons_prefix_cons]

/-! ## Input sections -/

structure InputSection where
  name : String
  content : List Assembly.Line

/-- The sections of an assembly file, after the lines that belong to none. -/
def assembledSections : List Assembly.Line → List Assembly.Line × List InputSection
  | [] => ([], [])
  | .enterSection name :: lines =>
    let (content, sections) := assembledSections lines
    ([], ⟨name, content⟩ :: sections)
  | line :: lines =>
    let (content, sections) := assembledSections lines
    (line :: content, sections)

def InputSection.MatchedBy (patterns : List String) (i : InputSection) : Bool :=
  patterns.any fun p => globMatches p.toList i.name.toList

/-! ## The state of a link -/

/-- The least multiple of `n` that is not below `a`, if `n` is not zero. -/
def advanceTo (n a : Nat) : Nat := if n = 0 then a else (a + (n - 1)) / n * n

structure LinkState where
  /-- The location counter. -/
  here : Nat
  /-- The symbols with their values, the last one first. -/
  symbols : List (String × Nat)
  /-- The input sections that are not placed yet. -/
  pending : List InputSection

namespace LinkState

def value? (s : LinkState) (symbol : String) : Option Nat := s.symbols.lookup symbol

def define (s : LinkState) (symbol : String) (value : Nat) : LinkState :=
  { s with symbols := (symbol, value) :: s.symbols }

def emit (s : LinkState) : Assembly.Line → LinkState
  | .label symbol => s.define symbol s.here
  | .align n => { s with here := advanceTo n s.here }
  | .space n => { s with here := s.here + n }
  | .instr i => { s with here := s.here + i.size.toNat }
  | .blank => s
  | .enterSection _ => s
  | .global _ => s

def emitAll (s : LinkState) (sections : List InputSection) : LinkState :=
  sections.foldl (fun s i => i.content.foldl emit s) s

def discard (s : LinkState) (patterns : List String) : LinkState :=
  { s with pending := s.pending.filter fun i => !i.MatchedBy patterns }

/-- Places the matching sections in their order. -/
def place (s : LinkState) (patterns : List String) : LinkState :=
  (s.discard patterns).emitAll (s.pending.filter fun i => i.MatchedBy patterns)

end LinkState

/-! ## Scripts -/

/-- A comparison gives one or zero. A difference must not be negative. -/
def Operator.result? : Operator → Nat → Nat → Option Nat
  | sub, a, b => if b ≤ a then some (a - b) else none
  | mod, a, b => if b = 0 then none else some (a % b)
  | eq, a, b => some (if a = b then 1 else 0)
  | le, a, b => some (if a ≤ b then 1 else 0)

def Expr.value? (s : LinkState) : Expr → Option Nat
  | here => some s.here
  | name symbol => s.value? symbol
  | decimal n => some n
  | hexadecimal n => some n
  | align n => some (advanceTo n s.here)
  | binary op left right => do op.result? (← left.value? s) (← right.value? s)

def Statement.run (s : LinkState) : Statement → Option LinkState
  | blank => some s
  | moveTo value => do return { s with here := ← value.value? s }
  | define symbol value => do return s.define symbol (← value.value? s)
  | place patterns _ => some (s.place patterns)

/-- In the part that is thrown away a pattern removes sections, and nothing is placed. -/
def Statement.runDiscarding (s : LinkState) : Statement → Option LinkState
  | place patterns _ => some (s.discard patterns)
  | t => t.run s

def Part.run (s : LinkState) : Part → Option LinkState
  | statement t => t.run s
  | output name body =>
    body.foldlM (if name = "/DISCARD/" then Statement.runDiscarding else Statement.run) s

/-- A link, with the result of each requirement. -/
structure Link where
  state : LinkState
  checks : List Bool

def Command.run (l : Link) : Command → Option Link
  | blank => some l
  | outputArch _ => some l
  | entry _ => some l
  | define symbol value => do return { l with state := l.state.define symbol (← value.value? l.state) }
  | sections parts => do return { l with state := ← parts.foldlM Part.run l.state }
  | require condition _ => do
    return { l with checks := l.checks ++ [decide ((← condition.value? l.state) ≠ 0)] }

def stackSections (lines : List Assembly.Line) : List InputSection :=
  (assembledSections lines).2.filter fun i => i.name = ".bss.stack"

/-- Links objects with the boot stack of the entry file, by the text of a script. -/
def link (script entryFile : String) (objects : List InputSection) : Option Link := do
  let commands ← parse script
  let lines ← Assembly.parse entryFile
  commands.foldlM Command.run ⟨⟨0, [], objects ++ stackSections lines⟩, []⟩

/-! ## Blank lines -/

theorem foldlM_filterMap {σ α : Type} {run : σ → α → Option σ} {strip : α → Option α}
    {items : List α} (hnone : ∀ a s, strip a = none → run s a = some s)
    (hsome : ∀ a b s, strip a = some b → run s b = run s a) (s : σ) :
    (items.filterMap strip).foldlM run s = items.foldlM run s := by
  induction items generalizing s with
  | nil => rfl
  | cons a as ih =>
    rw [List.foldlM_cons]
    rcases hstrip : strip a with _ | b
    · rw [List.filterMap_cons_none hstrip, hnone a s hstrip, ih]
      rfl
    · rw [List.filterMap_cons_some hstrip, List.foldlM_cons, hsome a b s hstrip]
      congr 1
      funext t
      exact ih t

theorem Part.run_strip {p q : Part} (h : p.strip = some q) (s : LinkState) : q.run s = p.run s := by
  cases p with
  | statement t =>
    obtain ⟨u, hstrip, rfl⟩ := Option.map_eq_some_iff.mp h
    rw [(Statement.strip_eq_some hstrip).1]
  | output name body =>
    obtain rfl := Option.some.inj h
    unfold Part.run
    apply foldlM_filterMap
    · intro t s ht
      cases t <;> simp_all [Statement.strip]
      split <;> rfl
    · rintro t u s ht
      rw [(Statement.strip_eq_some ht).1]

theorem Part.run_of_strip_eq_none {p : Part} (h : p.strip = none) (s : LinkState) :
    p.run s = some s := by
  cases p with
  | statement t => cases t <;> simp_all [Part.strip, Statement.strip, Part.run, Statement.run]
  | output name body => cases h

theorem Command.run_strip {c d : Command} (h : c.strip = some d) (l : Link) : d.run l = c.run l := by
  cases c with
  | blank => cases h
  | sections parts =>
    obtain rfl := Option.some.inj h
    rw [Command.run, Command.run, foldlM_filterMap (fun _ s h => Part.run_of_strip_eq_none h s)
      fun _ _ s h => Part.run_strip h s]
  | _ =>
    obtain rfl := Option.some.inj h
    rfl

/-- A rendered script does what its commands say. -/
theorem link_render {commands : List Command} (hc : ∀ c ∈ commands, c.Valid)
    {lines : List Assembly.Line} (hl : ∀ l ∈ lines, l.Valid) (objects : List InputSection) :
    link (render commands) (Assembly.render lines) objects =
      commands.foldlM Command.run ⟨⟨0, [], objects ++ stackSections (lines ++ [.blank])⟩, []⟩ := by
  rw [link, parse_render hc, Assembly.parse_render hl, Option.bind_eq_bind, Option.bind_some,
    Option.bind_eq_bind, Option.bind_some]
  apply foldlM_filterMap
  · intro c l h
    cases c <;> simp_all [Command.strip, Command.run]
  · exact fun _ _ l h => Command.run_strip h l

end KernelImage.Script
