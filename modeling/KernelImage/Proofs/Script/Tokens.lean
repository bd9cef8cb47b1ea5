import KernelImage.Proofs.Script.Lexer
import KernelImage.Proofs.Text.Digits
import KernelImage.Script.Basic

/-!
# The tokens of a script

Every construct of a script has its tokens, and a rendered script gives just these, if its names are
words and its messages have no quotes.
-/

namespace KernelImage.Script

/-! ## Numbers -/

/-- A number as the script language writes it. -/
def numeral? (w : String) : Option Expr :=
  if ['0', 'x'] <+: w.toList then (readDigits 16 (w.toList.drop 2)).map .hexadecimal
  else (readDigits 10 w.toList).map .decimal

theorem toList_toString (n : Nat) : (toString n).toList = Nat.toDigits 10 n := by
  rw [Nat.toString_eq_ofList_toDigits, String.toList_ofList]

theorem numeral?_hex (n : Nat) : numeral? (hex n) = some (.hexadecimal n) := by
  have hdrop : (['0', 'x'] ++ Nat.toDigits 16 n).drop 2 = Nat.toDigits 16 n := rfl
  rw [numeral?, toList_hex, if_pos (List.prefix_append _ _), hdrop,
    readDigits_toDigits (by decide) (by decide)]
  rfl

theorem not_prefix_toDigits (n : Nat) : ¬ ['0', 'x'] <+: Nat.toDigits 10 n := by
  intro h
  have hx : 'x' ∈ Nat.toDigits 10 n := h.subset (by simp)
  obtain ⟨k, hk, hdigit⟩ := mem_toDigits (by decide) hx
  have hall : ∀ k < 10, 'x' ≠ Nat.digitChar k := by decide
  exact hall k hk hdigit

theorem numeral?_toString (n : Nat) : numeral? (toString n) = some (.decimal n) := by
  rw [numeral?, toList_toString, if_neg (not_prefix_toDigits n),
    readDigits_toDigits (by decide) (by decide)]
  rfl

theorem isWordChar_of_mem_toDigits {base n : Nat} (h : 1 < base) (h16 : base ≤ 16) {c : Char}
    (hc : c ∈ Nat.toDigits base n) : isWordChar c := by
  obtain ⟨k, hk, rfl⟩ := mem_toDigits h hc
  have hall : ∀ k < 16, isWordChar (Nat.digitChar k) := by decide
  exact hall k (by omega)

theorem isWord_toString (n : Nat) : IsWord (toString n) := by
  refine ⟨?_, fun c hc => ?_⟩
  · rw [Ne, ← String.toList_eq_nil_iff, toList_toString]
    exact Nat.toDigits_ne_nil
  · rw [toList_toString] at hc
    exact isWordChar_of_mem_toDigits (by decide) (by decide) hc

theorem isWord_hex (n : Nat) : IsWord (hex n) := by
  refine ⟨?_, fun c hc => ?_⟩
  · rw [Ne, ← String.toList_eq_nil_iff, toList_hex]
    simp
  · rw [toList_hex, List.mem_append] at hc
    rcases hc with hc | hc
    · have hstart : IsWord "0x" := by decide
      exact hstart.2 c hc
    · exact isWordChar_of_mem_toDigits (by decide) (by decide) hc

/-! ## Names -/

/-- Words with a meaning of their own. -/
def reserved : List String := [".", "*", "ALIGN", "OUTPUT_ARCH", "ENTRY", "SECTIONS", "ASSERT"]

def IsName (w : String) : Prop := IsWord w ∧ w ∉ reserved ∧ numeral? w = none

instance (w : String) : Decidable (IsName w) :=
  inferInstanceAs (Decidable (IsWord w ∧ w ∉ reserved ∧ numeral? w = none))

/-! ## Expressions -/

def Operator.precedence : Operator → Nat
  | eq => 0
  | le => 1
  | sub => 2
  | mod => 3

namespace Expr

def isAtom : Expr → Bool
  | binary _ _ _ => false
  | _ => true

/-- The operator that was read last, if the expression has one. -/
def operator? : Expr → Option Operator
  | binary op _ _ => some op
  | _ => none

/-- All names are names, and no brackets are missing. -/
def Valid : Expr → Prop
  | name symbol => IsName symbol
  | binary op left right => left.Valid ∧ right.Valid ∧ right.isAtom ∧
      ∀ o ∈ left.operator?, op.precedence ≤ o.precedence
  | _ => True

instance decidableValid : (e : Expr) → Decidable e.Valid
  | here => isTrue trivial
  | name symbol => inferInstanceAs (Decidable (IsName symbol))
  | decimal _ => isTrue trivial
  | hexadecimal _ => isTrue trivial
  | align _ => isTrue trivial
  | binary op left right =>
    have := decidableValid left
    have := decidableValid right
    inferInstanceAs (Decidable (left.Valid ∧ right.Valid ∧ right.isAtom ∧
      ∀ o ∈ left.operator?, op.precedence ≤ o.precedence))

def tokens : Expr → List Token
  | here => [.word "."]
  | name symbol => [.word symbol]
  | decimal n => [.word (toString n)]
  | hexadecimal n => [.word (hex n)]
  | align n => [.word "ALIGN", .mark '(', .word (toString n), .mark ')']
  | binary op left right => left.tokens ++ .word op.text :: right.tokens

end Expr

theorem isWord_operator (op : Operator) : IsWord op.text := by cases op <;> decide

theorem Expr.lexes {e : Expr} (he : e.Valid) {c : Char} {t : List Token} (hc : Ends c t) :
    Lexes (e.text.toList ++ [c]) (e.tokens ++ t) := by
  induction e generalizing c t with
  | here => exact IsWord.lexes (by decide) hc
  | name symbol => exact he.1.lexes hc
  | decimal n => exact (isWord_toString n).lexes hc
  | hexadecimal n => exact (isWord_hex n).lexes hc
  | align n =>
    have hopen : Lexes ("ALIGN".toList ++ ['(']) [.word "ALIGN", .mark '('] :=
      IsWord.lexes (by decide) (.mark (by decide))
    have hnumber := (isWord_toString n).lexes (.mark (c := ')') (by decide))
    simpa [Expr.text, Expr.tokens] using (hopen.append hnumber).append hc.lexes
  | binary op left right ihl ihr =>
    obtain ⟨hleft, hright, -, -⟩ := he
    have hop := (isWord_operator op).lexes ends_space
    simpa [Expr.text, Expr.tokens] using ((ihl hleft ends_space).append hop).append (ihr hright hc)

/-! ## Statements -/

theorem Expr.lexes_semicolon {e : Expr} (he : e.Valid) :
    Lexes (e.text.toList ++ [';', '\n']) (e.tokens ++ [.mark ';']) := by
  have hsemicolon : Ends ';' [.mark ';'] := .mark (by decide)
  simpa using (e.lexes he hsemicolon).append ends_newline.lexes

theorem lexes_assignment {w : String} (hw : IsWord w) {e : Expr} (he : e.Valid) :
    Lexes ((w ++ " = " ++ e.text ++ ";").toList ++ ['\n'])
      (.word w :: .word "=" :: e.tokens ++ [.mark ';']) := by
  have heq : Lexes ("=".toList ++ [' ']) [.word "="] := IsWord.lexes (by decide) ends_space
  simpa using ((hw.lexes ends_space).append heq).append (e.lexes_semicolon he)

theorem lexes_words {ws : List String} (hws : ∀ w ∈ ws, IsWord w) :
    Lexes ((" ".intercalate ws).toList ++ [')']) (ws.map .word ++ [.mark ')']) := by
  have hclose : Ends ')' [.mark ')'] := .mark (by decide)
  rw [String.toList_intercalate]
  induction ws with
  | nil => exact hclose.lexes
  | cons w ws ih =>
    have hw := hws w List.mem_cons_self
    have hrest := ih fun v hv => hws v (List.mem_cons_of_mem _ hv)
    cases ws with
    | nil => simpa using hw.lexes hclose
    | cons v vs =>
      simpa [List.intercalate, List.intersperse] using (hw.lexes ends_space).append hrest

namespace Statement

def Valid : Statement → Prop
  | blank => True
  | moveTo value => value.Valid
  | define symbol value => IsName symbol ∧ value.Valid
  | place patterns _ => ∀ p ∈ patterns, IsWord p

instance (s : Statement) : Decidable s.Valid :=
  match s with
  | blank => isTrue trivial
  | moveTo value => inferInstanceAs (Decidable value.Valid)
  | define symbol value => inferInstanceAs (Decidable (IsName symbol ∧ value.Valid))
  | place patterns _ => inferInstanceAs (Decidable (∀ p ∈ patterns, IsWord p))

def tokens : Statement → List Token
  | blank => []
  | moveTo value => .word "." :: .word "=" :: value.tokens ++ [.mark ';']
  | define symbol value => .word symbol :: .word "=" :: value.tokens ++ [.mark ';']
  | place patterns semicolon =>
    .word "*" :: .mark '(' :: patterns.map .word ++ [.mark ')'] ++
      if semicolon then [.mark ';'] else []

theorem lexes {s : Statement} (hs : s.Valid) : Lexes (s.text.toList ++ ['\n']) s.tokens := by
  cases s with
  | blank => exact ends_newline.lexes
  | moveTo value => exact lexes_assignment (by decide : IsWord ".") hs
  | define symbol value => exact lexes_assignment hs.1.1 hs.2
  | place patterns semicolon =>
    have hopen : Lexes ("*".toList ++ ['(']) [.word "*", .mark '('] :=
      IsWord.lexes (by decide) (.mark (by decide))
    have hsemicolon : Lexes [';'] [.mark ';'] := .mark (by decide)
    have hplace := hopen.append (lexes_words hs)
    cases semicolon with
    | false => simpa [Statement.text, Statement.tokens] using hplace.append ends_newline.lexes
    | true =>
      simpa [Statement.text, Statement.tokens] using
        (hplace.append hsemicolon).append ends_newline.lexes

end Statement

/-! ## Lines -/

/-- Each line gives whole tokens, and together they give these. -/
inductive LexesLines : List String → List Token → Prop where
  | nil : LexesLines [] []
  | cons {line : String} {lines : List String} {t ts : List Token}
      (h : Lexes (line.toList ++ ['\n']) t) (hs : LexesLines lines ts) :
      LexesLines (line :: lines) (t ++ ts)

namespace LexesLines

theorem singleton {line : String} {t : List Token} (h : Lexes (line.toList ++ ['\n']) t) :
    LexesLines [line] t := by
  simpa using cons h nil

theorem append {a b : List String} {ta tb : List Token} (ha : LexesLines a ta)
    (hb : LexesLines b tb) : LexesLines (a ++ b) (ta ++ tb) := by
  induction ha with
  | nil => exact hb
  | cons h _ ih =>
    rw [List.append_assoc]
    exact cons h ih

theorem flatMap {α : Type} {items : List α} {lines : α → List String} {tokens : α → List Token}
    (h : ∀ a ∈ items, LexesLines (lines a) (tokens a)) :
    LexesLines (items.flatMap lines) (items.flatMap tokens) := by
  induction items with
  | nil => exact nil
  | cons a as ih =>
    rw [List.flatMap_cons, List.flatMap_cons]
    exact (h a List.mem_cons_self).append (ih fun b hb => h b (List.mem_cons_of_mem _ hb))

theorem lexes {lines : List String} {tokens : List Token} (h : LexesLines lines tokens) :
    Lexes (lines.flatMap fun line => line.toList ++ ['\n']) tokens := by
  induction h with
  | nil => exact Lexes.nil
  | cons h _ ih =>
    rw [List.flatMap_cons]
    exact h.append ih

theorem indent {lines : List String} {tokens : List Token} (h : LexesLines lines tokens) :
    LexesLines (lines.map Script.indent) tokens := by
  induction h with
  | nil => exact nil
  | @cons line lines t ts h _ ih =>
    refine cons ?_ ih
    unfold Script.indent
    split
    · exact h
    · simpa using lexes_indentation.append h

end LexesLines

/-! ## Parts and commands -/

namespace Part

def Valid : Part → Prop
  | statement s => s.Valid
  | output name body => IsWord name ∧ ∀ s ∈ body, s.Valid

instance (p : Part) : Decidable p.Valid :=
  match p with
  | statement s => inferInstanceAs (Decidable s.Valid)
  | output name body => inferInstanceAs (Decidable (IsWord name ∧ ∀ s ∈ body, s.Valid))

def tokens : Part → List Token
  | statement s => s.tokens
  | output name body =>
    .word name :: .word ":" :: .mark '\x7b' :: body.flatMap Statement.tokens ++ [.mark '\x7d']

theorem lexesLines {p : Part} (hp : p.Valid) : LexesLines p.lines p.tokens := by
  cases p with
  | statement s => exact .singleton (Statement.lexes hp)
  | output name body =>
    obtain ⟨hname, hbody⟩ := hp
    have hcolon : Lexes (":".toList ++ [' ']) [.word ":"] := IsWord.lexes (by decide) ends_space
    have hopen : Lexes ['\x7b'] [.mark '\x7b'] := .mark (by decide)
    have hclose : Lexes ['\x7d'] [.mark '\x7d'] := .mark (by decide)
    have hfirst : Lexes ((name ++ " : \x7b").toList ++ ['\n'])
        [.word name, .word ":", .mark '\x7b'] := by
      simpa using (((hname.lexes ends_space).append hcolon).append hopen).append ends_newline.lexes
    have hlast : Lexes ("\x7d".toList ++ ['\n']) [.mark '\x7d'] := by
      simpa using hclose.append ends_newline.lexes
    have hlines : LexesLines (body.map fun s => s.text) (body.flatMap Statement.tokens) := by
      rw [← List.flatMap_singleton' (body.map fun s => s.text), List.flatMap_map]
      exact .flatMap fun s hs => .singleton (Statement.lexes (hbody s hs))
    have hall := ((LexesLines.singleton hfirst).append hlines.indent).append (.singleton hlast)
    rw [List.map_map] at hall
    exact hall

end Part

namespace Command

def Valid : Command → Prop
  | blank => True
  | outputArch arch => IsWord arch
  | entry symbol => IsWord symbol
  | define symbol value => IsName symbol ∧ value.Valid
  | sections parts => ∀ p ∈ parts, p.Valid
  | require condition message => condition.Valid ∧ '"' ∉ message.toList

instance (c : Command) : Decidable c.Valid :=
  match c with
  | blank => isTrue trivial
  | outputArch arch => inferInstanceAs (Decidable (IsWord arch))
  | entry symbol => inferInstanceAs (Decidable (IsWord symbol))
  | define symbol value => inferInstanceAs (Decidable (IsName symbol ∧ value.Valid))
  | sections parts => inferInstanceAs (Decidable (∀ p ∈ parts, p.Valid))
  | require condition message =>
    inferInstanceAs (Decidable (condition.Valid ∧ '"' ∉ message.toList))

def tokens : Command → List Token
  | blank => []
  | outputArch arch => [.word "OUTPUT_ARCH", .mark '(', .word arch, .mark ')']
  | entry symbol => [.word "ENTRY", .mark '(', .word symbol, .mark ')']
  | define symbol value => .word symbol :: .word "=" :: value.tokens ++ [.mark ';']
  | sections parts => .word "SECTIONS" :: .mark '\x7b' :: parts.flatMap Part.tokens ++ [.mark '\x7d']
  | require condition message =>
    .word "ASSERT" :: .mark '(' :: condition.tokens ++
      [.mark ',', .quoted message, .mark ')', .mark ';']

theorem lexes_bracketed {w v : String} (hw : IsWord w) (hv : IsWord v) :
    Lexes ((w ++ "(" ++ v ++ ")").toList ++ ['\n']) [.word w, .mark '(', .word v, .mark ')'] := by
  have hopen : Ends '(' [.mark '('] := .mark (by decide)
  have hclose : Ends ')' [.mark ')'] := .mark (by decide)
  simpa using ((hw.lexes hopen).append (hv.lexes hclose)).append ends_newline.lexes

theorem lexesLines {c : Command} (hc : c.Valid) : LexesLines c.lines c.tokens := by
  cases c with
  | blank => exact .singleton ends_newline.lexes
  | outputArch arch =>
    refine .singleton ?_
    simpa [Command.tokens] using lexes_bracketed (by decide : IsWord "OUTPUT_ARCH") hc
  | entry symbol =>
    refine .singleton ?_
    simpa [Command.tokens] using lexes_bracketed (by decide : IsWord "ENTRY") hc
  | define symbol value => exact .singleton (lexes_assignment hc.1.1 hc.2)
  | sections parts =>
    have hword : Lexes ("SECTIONS".toList ++ ['\n']) [.word "SECTIONS"] :=
      IsWord.lexes (by decide) ends_newline
    have hopen : Lexes ("\x7b".toList ++ ['\n']) [.mark '\x7b'] := by
      simpa using (Lexes.mark (by decide : isMark '\x7b')).append ends_newline.lexes
    have hclose : Lexes ("\x7d".toList ++ ['\n']) [.mark '\x7d'] := by
      simpa using (Lexes.mark (by decide : isMark '\x7d')).append ends_newline.lexes
    have hparts : LexesLines (parts.flatMap Part.lines) (parts.flatMap Part.tokens) :=
      .flatMap fun p hp => Part.lexesLines (hc p hp)
    exact .append (.append (.cons hword (.singleton hopen)) hparts.indent) (.singleton hclose)
  | require condition message =>
    obtain ⟨hcondition, hmessage⟩ := hc
    have hword : Lexes ("ASSERT".toList ++ ['(']) [.word "ASSERT", .mark '('] :=
      IsWord.lexes (by decide) (.mark (by decide))
    have hcomma : Ends ',' [.mark ','] := .mark (by decide)
    have hclose : Lexes [')'] [.mark ')'] := .mark (by decide)
    have hsemicolon : Lexes [';'] [.mark ';'] := .mark (by decide)
    have hall := (((((hword.append (condition.lexes hcondition hcomma)).append ends_space.lexes).append
      (Lexes.quoted hmessage)).append hclose).append hsemicolon).append ends_newline.lexes
    refine .singleton ?_
    simpa [Command.tokens] using hall

end Command

theorem lex_render {commands : List Command} (h : ∀ c ∈ commands, c.Valid) :
    lex (render commands) = some (commands.flatMap Command.tokens) := by
  have hlines : LexesLines (commands.flatMap Command.lines) (commands.flatMap Command.tokens) :=
    .flatMap fun c hc => Command.lexesLines (h c hc)
  have htext : (render commands).toList =
      (commands.flatMap Command.lines).flatMap fun line => line.toList ++ ['\n'] := by
    rw [render, String.toList_join, List.flatMap_map]
    simp
  apply lex_eq_of_lexes
  rw [htext]
  exact hlines.lexes

end KernelImage.Script
