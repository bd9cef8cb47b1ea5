import KernelImage.Proofs.Script.Tokens

/-!
# Reading a script

`parse` reads the text of a script as the linker does: the layout of the text does not matter, and an
operator that binds tighter takes its operands first. A rendered script is read back as it was, except
for blank lines.
-/

namespace KernelImage.Script

/-! ## Parsers -/

abbrev Parser (α : Type) := List Token → Option (α × List Token)

def expect (t : Token) : List Token → Option (List Token)
  | [] => none
  | u :: ts => if u = t then some ts else none

def word : Parser String
  | .word w :: ts => some (w, ts)
  | _ => none

def quotedText : Parser String
  | .quoted text :: ts => some (text, ts)
  | _ => none

def many {α : Type} (p : Parser α) (ts : List Token) : List α × List Token :=
  match p ts with
  | none => ([], ts)
  | some (a, rest) =>
    if rest.length < ts.length then
      let (as, last) := many p rest
      (a :: as, last)
    else
      ([], ts)
termination_by ts.length

def nameOrNumber (w : String) : Expr := (numeral? w).getD (.name w)

def atom : Parser Expr := fun ts => do
  let (w, ts) ← word ts
  if w = "." then
    return (.here, ts)
  if w = "ALIGN" then
    let ts ← expect (.mark '(') ts
    let (n, ts) ← word ts
    let ts ← expect (.mark ')') ts
    return (.align (← readDigits 10 n.toList), ts)
  return (nameOrNumber w, ts)

def Operator.ofText? : String → Option Operator
  | "-" => some .sub
  | "%" => some .mod
  | "==" => some .eq
  | "<=" => some .le
  | _ => none

def continuation : Parser (Operator × Expr) := fun ts => do
  let (w, ts) ← word ts
  let op ← Operator.ofText? w
  let (e, ts) ← atom ts
  return ((op, e), ts)

/-- Adds an operator on the right, below the operators that bind less tight. -/
def Expr.extend : Expr → Operator → Expr → Expr
  | .binary o l r, op, right =>
    if o.precedence < op.precedence then .binary o l (r.extend op right)
    else .binary op (.binary o l r) right
  | e, op, right => .binary op e right

def expr : Parser Expr := fun ts => do
  let (e, ts) ← atom ts
  let (more, ts) := many continuation ts
  return (more.foldl (fun e p => e.extend p.1 p.2) e, ts)

/-- What stands after a symbol: an equals sign, a value and a semicolon. -/
def assigned : Parser Expr := fun ts => do
  let ts ← expect (.word "=") ts
  let (value, ts) ← expr ts
  let ts ← expect (.mark ';') ts
  return (value, ts)

def statement : Parser Statement := fun ts => do
  let (w, ts) ← word ts
  if w = "*" then
    let ts ← expect (.mark '(') ts
    let (patterns, ts) := many word ts
    let ts ← expect (.mark ')') ts
    match expect (.mark ';') ts with
    | some ts => return (.place patterns true, ts)
    | none => return (.place patterns false, ts)
  let (value, ts) ← assigned ts
  return (if w = "." then .moveTo value else .define w value, ts)

def output : Parser Part := fun ts => do
  let (name, ts) ← word ts
  let ts ← expect (.word ":") ts
  let ts ← expect (.mark '\x7b') ts
  let (body, ts) := many statement ts
  let ts ← expect (.mark '\x7d') ts
  return (.output name body, ts)

def part : Parser Part := fun ts =>
  match output ts with
  | some result => some result
  | none => (statement ts).map fun (s, rest) => (.statement s, rest)

def bracketed : Parser String := fun ts => do
  let ts ← expect (.mark '(') ts
  let (w, ts) ← word ts
  let ts ← expect (.mark ')') ts
  return (w, ts)

def sectionList : Parser (List Part) := fun ts => do
  let ts ← expect (.mark '\x7b') ts
  let (parts, ts) := many part ts
  let ts ← expect (.mark '\x7d') ts
  return (parts, ts)

def requirement : Parser Command := fun ts => do
  let ts ← expect (.mark '(') ts
  let (condition, ts) ← expr ts
  let ts ← expect (.mark ',') ts
  let (message, ts) ← quotedText ts
  let ts ← expect (.mark ')') ts
  let ts ← expect (.mark ';') ts
  return (.require condition message, ts)

def command : Parser Command := fun ts => do
  let (w, ts) ← word ts
  if w = "OUTPUT_ARCH" then
    (bracketed ts).map fun (arch, rest) => (.outputArch arch, rest)
  else if w = "ENTRY" then
    (bracketed ts).map fun (symbol, rest) => (.entry symbol, rest)
  else if w = "SECTIONS" then
    (sectionList ts).map fun (parts, rest) => (.sections parts, rest)
  else if w = "ASSERT" then
    requirement ts
  else
    (assigned ts).map fun (value, rest) => (.define w value, rest)

/-- The commands of a text, if it holds nothing else. -/
def parse (text : String) : Option (List Command) := do
  let ts ← lex text
  let (commands, rest) := many command ts
  if rest = [] then some commands else none

/-! ## Repetition -/

theorem many_of_none {α : Type} {p : Parser α} {ts : List Token} (h : p ts = none) :
    many p ts = ([], ts) := by
  rw [many, h]

theorem many_of_some {α : Type} {p : Parser α} {a : α} {t : Token} {ts rest : List Token}
    (h : p ((t :: ts) ++ rest) = some (a, rest)) :
    many p ((t :: ts) ++ rest) = (a :: (many p rest).1, (many p rest).2) := by
  have hlt : rest.length < ((t :: ts) ++ rest).length := by
    rw [List.length_append, List.length_cons]
    omega
  rw [many, h]
  simp only [hlt, if_true]

/-- Items that are each read back when `F` holds of what follows them. -/
theorem many_flatMap {α : Type} {p : Parser α} {tokens : α → List Token} {items : List α}
    {F : List Token → Prop}
    (hp : ∀ a ∈ items, ∀ rest, F rest → p (tokens a ++ rest) = some (a, rest))
    (hF : ∀ a ∈ items, tokens a ≠ [] ∧ ∀ rest, F (tokens a ++ rest)) {rest : List Token}
    (hrest : F rest) (hstop : p rest = none) :
    many p (items.flatMap tokens ++ rest) = (items, rest) := by
  induction items with
  | nil => exact many_of_none hstop
  | cons a as ih =>
    have ih := ih (fun b hb => hp b (List.mem_cons_of_mem _ hb))
      (fun b hb => hF b (List.mem_cons_of_mem _ hb))
    have hnext : F (as.flatMap tokens ++ rest) := by
      cases as with
      | nil => exact hrest
      | cons b bs =>
        rw [List.flatMap_cons, List.append_assoc]
        exact (hF b (by simp)).2 _
    have ha := hp a List.mem_cons_self _ hnext
    obtain ⟨t, ts, hts⟩ := List.exists_cons_of_ne_nil (hF a List.mem_cons_self).1
    rw [List.flatMap_cons, List.append_assoc]
    rw [hts] at ha ⊢
    rw [many_of_some ha, ih]

@[simp]
theorem expect_cons_self (t : Token) (ts : List Token) : expect t (t :: ts) = some ts := by
  simp [expect]

@[simp]
theorem word_cons (w : String) (ts : List Token) : word (.word w :: ts) = some (w, ts) := rfl

/-! ## Expressions -/

theorem not_mem_reserved_of_numeral? {w : String} {e : Expr} (h : numeral? w = some e) :
    w ∉ reserved := by
  have hnone : ∀ v ∈ reserved, numeral? v = none := by decide
  intro hw
  rw [hnone w hw] at h
  cases h

theorem atom_word {w : String} (hw : w ∉ reserved) (ts : List Token) :
    atom (.word w :: ts) = some (nameOrNumber w, ts) := by
  have hdot : w ≠ "." := by rintro rfl; exact hw (by decide)
  have halign : w ≠ "ALIGN" := by rintro rfl; exact hw (by decide)
  simp [atom, hdot, halign]

theorem atom_numeral {w : String} {e : Expr} (h : numeral? w = some e) (ts : List Token) :
    atom (.word w :: ts) = some (e, ts) := by
  rw [atom_word (not_mem_reserved_of_numeral? h), nameOrNumber, h]
  rfl

theorem atom_tokens {e : Expr} (he : e.Valid) (ha : e.isAtom) (ts : List Token) :
    atom (e.tokens ++ ts) = some (e, ts) := by
  cases e with
  | here => rfl
  | name symbol =>
    obtain ⟨-, hreserved, hnone⟩ := he
    have hatom := atom_word hreserved ts
    rw [nameOrNumber, hnone] at hatom
    exact hatom
  | decimal n => exact atom_numeral (numeral?_toString n) ts
  | hexadecimal n => exact atom_numeral (numeral?_hex n) ts
  | align n =>
    have hnumber := readDigits_toDigits (by decide : 1 < 10) (by decide) n
    simp [atom, Expr.tokens, hnumber]
  | binary op left right => cases ha

namespace Expr

def first : Expr → Expr
  | binary _ left _ => left.first
  | e => e

/-- The operators from left to right, each with its right operand. -/
def continuations : Expr → List (Operator × Expr)
  | binary op left right => left.continuations ++ [(op, right)]
  | _ => []

end Expr

def continuationTokens (p : Operator × Expr) : List Token := .word p.1.text :: p.2.tokens

theorem Expr.tokens_eq (e : Expr) :
    e.tokens = e.first.tokens ++ e.continuations.flatMap continuationTokens := by
  induction e with
  | binary op left right ihl _ =>
    rw [Expr.tokens, ihl, first, continuations, List.flatMap_append, List.flatMap_singleton,
      List.append_assoc]
    rfl
  | _ => simp [first, continuations]

theorem Expr.first_valid {e : Expr} (he : e.Valid) : e.first.Valid ∧ e.first.isAtom := by
  induction e with
  | binary op left right ihl _ => exact ihl he.1
  | _ => exact ⟨he, rfl⟩

theorem Expr.continuations_valid {e : Expr} (he : e.Valid) :
    ∀ p ∈ e.continuations, p.2.Valid ∧ p.2.isAtom := by
  induction e with
  | binary op left right ihl _ =>
    obtain ⟨hleft, hright, hatom, -⟩ := he
    intro p hp
    rw [continuations, List.mem_append, List.mem_singleton] at hp
    rcases hp with hp | rfl
    · exact ihl hleft p hp
    · exact ⟨hright, hatom⟩
  | _ => simp [continuations]

theorem Expr.foldl_extend {e : Expr} (he : e.Valid) :
    e.continuations.foldl (fun e p => e.extend p.1 p.2) e.first = e := by
  induction e with
  | binary op left right ihl _ =>
    obtain ⟨hleft, -, -, hprecedence⟩ := he
    rw [continuations, first, List.foldl_append, ihl hleft, List.foldl_cons, List.foldl_nil]
    cases left with
    | binary o l r =>
      have hle : ¬ o.precedence < op.precedence := Nat.not_lt.mpr (hprecedence o rfl)
      rw [extend, if_neg hle]
    | _ => rfl
  | _ => rfl

theorem Operator.ofText?_text (op : Operator) : ofText? op.text = some op := by cases op <;> rfl

theorem continuation_tokens {p : Operator × Expr} (hp : p.2.Valid ∧ p.2.isAtom)
    (ts : List Token) : continuation (continuationTokens p ++ ts) = some (p, ts) := by
  simp [continuation, continuationTokens, Operator.ofText?_text, atom_tokens hp.1 hp.2]

theorem expr_tokens {e : Expr} (he : e.Valid) (c : Char) (ts : List Token) :
    expr (e.tokens ++ .mark c :: ts) = some (e, .mark c :: ts) := by
  obtain ⟨hfirst, hatom⟩ := Expr.first_valid he
  have hmany : many continuation
      (e.continuations.flatMap continuationTokens ++ .mark c :: ts) =
        (e.continuations, .mark c :: ts) := by
    apply many_flatMap (F := fun _ => True)
    · intro p hp rest _
      exact continuation_tokens (Expr.continuations_valid he p hp) rest
    · intro p _
      exact ⟨by simp [continuationTokens], fun _ => trivial⟩
    · trivial
    · rfl
  rw [Expr.tokens_eq, List.append_assoc, expr, atom_tokens hfirst hatom]
  simp [hmany, Expr.foldl_extend he]

theorem assigned_tokens {e : Expr} (he : e.Valid) (ts : List Token) :
    assigned (.word "=" :: e.tokens ++ .mark ';' :: ts) = some (e, ts) := by
  simp [assigned, expr_tokens he]

/-! ## Statements -/

/-- No semicolon follows, which a statement could take for its own. -/
def NoSemicolon (ts : List Token) : Prop := expect (.mark ';') ts = none

theorem many_words (ws : List String) (ts : List Token) :
    many word (ws.map .word ++ .mark ')' :: ts) = (ws, .mark ')' :: ts) := by
  rw [List.map_eq_flatMap]
  apply many_flatMap (F := fun _ => True)
  · intro w _ rest _
    rfl
  · intro w _
    exact ⟨by simp, fun _ => trivial⟩
  · trivial
  · rfl

theorem statement_tokens {s : Statement} (hs : s.Valid) (hblank : s ≠ .blank) {ts : List Token}
    (hts : NoSemicolon ts) : statement (s.tokens ++ ts) = some (s, ts) := by
  cases s with
  | blank => exact absurd rfl hblank
  | moveTo value =>
    have hvalue := assigned_tokens hs ts
    simp [statement, Statement.tokens] at hvalue ⊢
    simp [hvalue]
  | define symbol value =>
    obtain ⟨⟨-, hreserved, -⟩, hvalue⟩ := hs
    have hdot : symbol ≠ "." := by rintro rfl; exact hreserved (by decide)
    have hstar : symbol ≠ "*" := by rintro rfl; exact hreserved (by decide)
    have hvalue := assigned_tokens hvalue ts
    simp at hvalue
    simp [statement, Statement.tokens, hdot, hstar, hvalue]
  | place patterns semicolon =>
    unfold NoSemicolon at hts
    cases semicolon with
    | false => simp [statement, Statement.tokens, many_words, hts]
    | true => simp [statement, Statement.tokens, many_words]

/-! ## Scripts without blank lines -/

namespace Statement

/-- The statement, unless it is a blank line. -/
def strip : Statement → Option Statement
  | blank => none
  | s => some s

theorem strip_eq_some {s t : Statement} (h : s.strip = some t) : t = s ∧ s ≠ blank := by
  cases s with
  | blank => cases h
  | _ =>
    obtain rfl := Option.some.inj h
    exact ⟨rfl, by simp⟩

theorem tokens_of_strip_eq_none {s : Statement} (h : s.strip = none) : s.tokens = [] := by
  cases s <;> simp_all [strip, tokens]

theorem tokens_ne_nil {s : Statement} (h : s ≠ blank) : s.tokens ≠ [] := by
  cases s <;> simp_all [tokens]

theorem noSemicolon {s : Statement} (h : s ≠ blank) (ts : List Token) :
    NoSemicolon (s.tokens ++ ts) := by
  cases s <;> simp_all [NoSemicolon, tokens, expect]

end Statement

def Part.strip : Part → Option Part
  | .statement s => s.strip.map .statement
  | .output name body => some (.output name (body.filterMap Statement.strip))

def Command.strip : Command → Option Command
  | .blank => none
  | .sections parts => some (.sections (parts.filterMap Part.strip))
  | c => some c

theorem flatMap_filterMap {α β : Type} {strip : α → Option α} {tokens : α → List β} {items : List α}
    (hnone : ∀ a, strip a = none → tokens a = [])
    (hsome : ∀ a b, strip a = some b → tokens b = tokens a) :
    (items.filterMap strip).flatMap tokens = items.flatMap tokens := by
  induction items with
  | nil => rfl
  | cons a as ih =>
    rcases hstrip : strip a with _ | b
    · rw [List.filterMap_cons_none hstrip, ih, List.flatMap_cons, hnone a hstrip, List.nil_append]
    · rw [List.filterMap_cons_some hstrip, List.flatMap_cons, ih, List.flatMap_cons,
        hsome a b hstrip]

theorem flatMap_strip_statements (body : List Statement) :
    (body.filterMap Statement.strip).flatMap Statement.tokens = body.flatMap Statement.tokens := by
  apply flatMap_filterMap
  · exact fun _ => Statement.tokens_of_strip_eq_none
  · rintro s t h
    rw [(Statement.strip_eq_some h).1]

theorem mem_filterMap_strip {body : List Statement} (hbody : ∀ s ∈ body, s.Valid) {s : Statement}
    (hs : s ∈ body.filterMap Statement.strip) : s.Valid ∧ s ≠ .blank := by
  obtain ⟨t, ht, hstrip⟩ := List.mem_filterMap.mp hs
  obtain ⟨rfl, hblank⟩ := Statement.strip_eq_some hstrip
  exact ⟨hbody s ht, hblank⟩

theorem many_statements {body : List Statement} (hbody : ∀ s ∈ body, s.Valid) (ts : List Token) :
    many statement (body.flatMap Statement.tokens ++ .mark '\x7d' :: ts) =
      (body.filterMap Statement.strip, .mark '\x7d' :: ts) := by
  rw [← flatMap_strip_statements]
  apply many_flatMap (F := NoSemicolon)
  · intro s hs rest hrest
    obtain ⟨hvalid, hblank⟩ := mem_filterMap_strip hbody hs
    exact statement_tokens hvalid hblank hrest
  · intro s hs
    obtain ⟨-, hblank⟩ := mem_filterMap_strip hbody hs
    exact ⟨Statement.tokens_ne_nil hblank, Statement.noSemicolon hblank⟩
  · rfl
  · rfl

/-! ## Parts -/

theorem output_tokens {name : String} {body : List Statement} (hbody : ∀ s ∈ body, s.Valid)
    (ts : List Token) :
    output ((Part.output name body).tokens ++ ts) =
      some (.output name (body.filterMap Statement.strip), ts) := by
  simp [output, Part.tokens, many_statements hbody]

theorem output_statement_tokens {s : Statement} (h : s ≠ .blank) (ts : List Token) :
    output (s.tokens ++ ts) = none := by
  cases s <;> simp_all [output, Statement.tokens, expect]

theorem part_tokens {p q : Part} (hp : p.Valid) (hq : p.strip = some q) {ts : List Token}
    (hts : NoSemicolon ts) : part (p.tokens ++ ts) = some (q, ts) := by
  cases p with
  | statement s =>
    obtain ⟨t, hstrip, rfl⟩ := Option.map_eq_some_iff.mp hq
    obtain ⟨rfl, hblank⟩ := Statement.strip_eq_some hstrip
    rw [part, Part.tokens, output_statement_tokens hblank, statement_tokens hp hblank hts]
    rfl
  | output name body =>
    obtain rfl := Option.some.inj hq
    rw [part, output_tokens hp.2]

namespace Part

theorem tokens_of_strip_eq_none {p : Part} (h : p.strip = none) : p.tokens = [] := by
  cases p with
  | statement s => exact Statement.tokens_of_strip_eq_none (Option.map_eq_none_iff.mp h)
  | output name body => cases h

theorem tokens_of_strip_eq_some {p q : Part} (h : p.strip = some q) :
    q.tokens = p.tokens ∧ p.tokens ≠ [] ∧ ∀ ts, NoSemicolon (p.tokens ++ ts) := by
  cases p with
  | statement s =>
    obtain ⟨t, hstrip, rfl⟩ := Option.map_eq_some_iff.mp h
    obtain ⟨rfl, hblank⟩ := Statement.strip_eq_some hstrip
    exact ⟨rfl, Statement.tokens_ne_nil hblank, Statement.noSemicolon hblank⟩
  | output name body =>
    obtain rfl := Option.some.inj h
    refine ⟨?_, by simp [tokens], fun ts => by simp [tokens, NoSemicolon, expect]⟩
    rw [tokens, tokens, flatMap_strip_statements]

end Part

theorem sectionList_tokens {parts : List Part} (hparts : ∀ p ∈ parts, p.Valid) (ts : List Token) :
    sectionList (.mark '\x7b' :: parts.flatMap Part.tokens ++ .mark '\x7d' :: ts) =
      some (parts.filterMap Part.strip, ts) := by
  have hmany : many part (parts.flatMap Part.tokens ++ .mark '\x7d' :: ts) =
      (parts.filterMap Part.strip, .mark '\x7d' :: ts) := by
    rw [← flatMap_filterMap (fun _ => Part.tokens_of_strip_eq_none)
      fun _ _ h => (Part.tokens_of_strip_eq_some h).1]
    apply many_flatMap (F := NoSemicolon)
    · intro q hq rest hrest
      obtain ⟨p, hp, hstrip⟩ := List.mem_filterMap.mp hq
      rw [(Part.tokens_of_strip_eq_some hstrip).1]
      exact part_tokens (hparts p hp) hstrip hrest
    · intro q hq
      obtain ⟨p, hp, hstrip⟩ := List.mem_filterMap.mp hq
      obtain ⟨heq, hne, hsemicolon⟩ := Part.tokens_of_strip_eq_some hstrip
      rw [heq]
      exact ⟨hne, hsemicolon⟩
    · rfl
    · rfl
  simp [sectionList, hmany]

/-! ## Commands -/

theorem bracketed_tokens (w : String) (ts : List Token) :
    bracketed (.mark '(' :: .word w :: .mark ')' :: ts) = some (w, ts) := by
  simp [bracketed]

theorem requirement_tokens {condition : Expr} (h : condition.Valid) (message : String)
    (ts : List Token) :
    requirement (.mark '(' :: condition.tokens ++
      .mark ',' :: .quoted message :: .mark ')' :: .mark ';' :: ts) =
        some (.require condition message, ts) := by
  simp [requirement, expr_tokens h, quotedText]

theorem command_tokens {c d : Command} (hc : c.Valid) (hd : c.strip = some d) (ts : List Token) :
    command (c.tokens ++ ts) = some (d, ts) := by
  cases c with
  | blank => cases hd
  | outputArch arch =>
    obtain rfl := Option.some.inj hd
    simp [command, Command.tokens, bracketed_tokens]
  | entry symbol =>
    obtain rfl := Option.some.inj hd
    simp [command, Command.tokens, bracketed_tokens]
  | define symbol value =>
    obtain rfl := Option.some.inj hd
    obtain ⟨⟨-, hreserved, -⟩, hvalue⟩ := hc
    have hword (w : String) (hw : w ∈ reserved) : symbol ≠ w := by rintro rfl; exact hreserved hw
    have hassigned := assigned_tokens hvalue ts
    simp only [List.cons_append] at hassigned
    simp [command, Command.tokens, hassigned, hword "OUTPUT_ARCH" (by decide),
      hword "ENTRY" (by decide), hword "SECTIONS" (by decide), hword "ASSERT" (by decide)]
  | sections parts =>
    obtain rfl := Option.some.inj hd
    have hparts := sectionList_tokens hc ts
    simp only [List.cons_append] at hparts
    simp [command, Command.tokens, hparts]
  | require condition message =>
    obtain rfl := Option.some.inj hd
    have hrequirement := requirement_tokens hc.1 message ts
    simp only [List.cons_append] at hrequirement
    simp [command, Command.tokens, hrequirement]

namespace Command

theorem tokens_of_strip_eq_none {c : Command} (h : c.strip = none) : c.tokens = [] := by
  cases c <;> simp_all [strip, tokens]

theorem tokens_of_strip_eq_some {c d : Command} (h : c.strip = some d) :
    d.tokens = c.tokens ∧ c.tokens ≠ [] := by
  cases c with
  | blank => cases h
  | sections parts =>
    obtain rfl := Option.some.inj h
    refine ⟨?_, by simp [tokens]⟩
    rw [tokens, tokens, flatMap_filterMap (fun _ => Part.tokens_of_strip_eq_none)
      fun _ _ h => (Part.tokens_of_strip_eq_some h).1]
  | _ =>
    obtain rfl := Option.some.inj h
    exact ⟨rfl, by simp [tokens]⟩

end Command

/-- A rendered script is read back as it was, without its blank lines. -/
theorem parse_render {commands : List Command} (h : ∀ c ∈ commands, c.Valid) :
    parse (render commands) = some (commands.filterMap Command.strip) := by
  have hmany : many command (commands.flatMap Command.tokens ++ []) =
      (commands.filterMap Command.strip, []) := by
    rw [← flatMap_filterMap (fun _ => Command.tokens_of_strip_eq_none)
      fun _ _ h => (Command.tokens_of_strip_eq_some h).1]
    apply many_flatMap (F := fun _ => True)
    · intro d hd rest _
      obtain ⟨c, hc, hstrip⟩ := List.mem_filterMap.mp hd
      rw [(Command.tokens_of_strip_eq_some hstrip).1]
      exact command_tokens (h c hc) hstrip rest
    · intro d hd
      obtain ⟨c, hc, hstrip⟩ := List.mem_filterMap.mp hd
      obtain ⟨heq, hne⟩ := Command.tokens_of_strip_eq_some hstrip
      rw [heq]
      exact ⟨hne, fun _ => trivial⟩
    · trivial
    · rfl
  rw [List.append_nil] at hmany
  simp [parse, lex_render h, hmany]

end KernelImage.Script
