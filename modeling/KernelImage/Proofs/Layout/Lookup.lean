import KernelImage.Proofs.Layout.Basic

/-!
# Layouts from look-ups with a state

A look-up may keep a state, so that an answer depends on the calls before it. Every symbol is looked
up once, in order, and the layout has the answers. A look-up that may fail can also be resolved in
one pass, with a placeholder for each missing address and a note of the first missing symbol. A layout
gives back what it was built from, by symbol and by name.
-/

namespace KernelImage

/-! ## Calls -/

namespace Symbol

variable {σ τ α : Type} {f : Symbol → StateM σ α} {state : σ} {s : Symbol} {l : List Symbol}

/-- The state that is left when these symbols have been looked up, one after the other. -/
def stateAfter (f : Symbol → StateM σ α) (start : σ) (l : List Symbol) : σ :=
  l.foldl (fun state s => ((f s).run state).2) start

/-- The answer for a symbol when those before it have been looked up, each once and in order. -/
def answer (f : Symbol → StateM σ α) (start : σ) (s : Symbol) : α :=
  ((f s).run (stateAfter f start (all.take s.index))).1

/-- The symbols that are looked up, with their answers. -/
def calls (f : Symbol → StateM σ α) : σ → List Symbol → List (Symbol × α)
  | _, [] => []
  | state, s :: rest => (s, ((f s).run state).1) :: calls f ((f s).run state).2 rest

theorem calls_all (f : Symbol → StateM σ α) (start : σ) :
    calls f start all = all.map fun s => (s, answer f start s) := rfl

theorem run_tabulateM (f : Symbol → StateM σ α) (start : σ) :
    (tabulateM f).run start = (answer f start, stateAfter f start all) := by
  refine Prod.ext (funext fun s => ?_) rfl
  cases s <;> rfl

theorem stateAfter_pure (g : Symbol → α) (start : σ) (l : List Symbol) :
    stateAfter (fun s => (pure (g s) : StateM σ α)) start l = start := by
  induction l with
  | nil => rfl
  | cons s l ih => exact ih

/-- The look-up, which also keeps a record of its calls. -/
def recording (note : τ → Symbol × α → τ) (f : Symbol → StateM σ α) (s : Symbol) :
    StateM (σ × τ) α := fun (state, record) =>
  let (a, next) := (f s).run state
  (a, next, note record (s, a))

theorem stateAfter_recording (note : τ → Symbol × α → τ) (record : τ) :
    stateAfter (recording note f) (state, record) l =
      (stateAfter f state l, (calls f state l).foldl note record) := by
  induction l generalizing state record with
  | nil => rfl
  | cons s l ih => exact ih _

theorem answer_recording (note : τ → Symbol × α → τ) (record : τ) :
    answer (recording note f) (state, record) = answer f state := by
  funext s
  rw [answer, stateAfter_recording]
  rfl

/-- The look-up, which also lists its calls. -/
def logged (f : Symbol → StateM σ α) : Symbol → StateM (σ × List (Symbol × α)) α :=
  recording (fun log call => log ++ [call]) f

theorem foldl_log (calls log : List (Symbol × α)) :
    calls.foldl (fun log call => log ++ [call]) log = log ++ calls := by
  induction calls generalizing log with
  | nil => simp
  | cons call calls ih => simp [ih]

theorem run_tabulateM_logged (f : Symbol → StateM σ α) (start : σ) :
    (tabulateM (logged f)).run (start, []) =
      (answer f start, stateAfter f start all, all.map fun s => (s, answer f start s)) := by
  rw [run_tabulateM, logged, answer_recording, stateAfter_recording, foldl_log, calls_all,
    List.nil_append]

end Symbol

namespace Layout

open KernelImage.Symbol

variable {σ : Type} {f : Symbol → StateM σ Address} {lookup : Symbol → StateM σ (Option Address)}
  {start : σ} {l : Layout}

/-! ## One pass -/

/-- The missing symbol that is noted, or else the one that this call finds to be missing. -/
def noteMissing (missing : Option Symbol) (call : Symbol × Option Address) : Option Symbol :=
  missing.or (if call.2.isNone then some call.1 else none)

/-- The look-up with a placeholder for a missing address. The first missing symbol is noted. -/
def padded (lookup : Symbol → StateM σ (Option Address)) (s : Symbol) :
    StateM (σ × Option Symbol) Address :=
  (·.getD default) <$> recording noteMissing lookup s

/-- Builds a layout, with placeholders if need be, and then sees whether a symbol was missing. -/
def resolveOnce (lookup : Symbol → StateM σ (Option Address)) : StateM σ (Except Defect Layout) :=
  fun start =>
    match (ofFnM (padded lookup)).run (start, none) with
    | (l, next, none) => (.ok l, next)
    | (_, next, some s) => (.error (.missingSymbol s), next)

theorem run_ofFnM (f : Symbol → StateM σ Address) (start : σ) :
    (ofFnM f).run start = (ofFn (answer f start), stateAfter f start all) := by
  rw [ofFnM, StateT.run_bind, run_tabulateM]
  rfl

theorem run_resolveM (lookup : Symbol → StateM σ (Option Address)) (start : σ) :
    (resolveM lookup).run start = (resolve (answer lookup start), stateAfter lookup start all) := by
  rw [resolveM, StateT.run_bind, run_tabulateM]
  rfl

theorem foldl_noteMissing (calls : List (Symbol × Option Address)) (missing : Option Symbol) :
    calls.foldl noteMissing missing =
      missing.or ((calls.find? fun call => call.2.isNone).map Prod.fst) := by
  induction calls generalizing missing with
  | nil => simp
  | cons call calls ih =>
    rw [List.foldl_cons, ih, List.find?_cons, noteMissing, Option.or_assoc]
    rcases call with ⟨s, _ | a⟩ <;> rfl

theorem stateAfter_padded {missing : Option Symbol} {l : List Symbol} :
    stateAfter (padded lookup) (start, missing) l =
      (stateAfter lookup start l,
        missing.or (((calls lookup start l).find? fun call => call.2.isNone).map Prod.fst)) := by
  rw [← foldl_noteMissing, ← stateAfter_recording]
  rfl

theorem answer_padded {missing : Option Symbol} :
    answer (padded lookup) (start, missing) = fun s => (answer lookup start s).getD default := by
  funext s
  rw [answer, stateAfter_padded]
  rfl

theorem run_ofFnM_padded (lookup : Symbol → StateM σ (Option Address)) (start : σ) :
    (ofFnM (padded lookup)).run (start, none) =
      (ofFn fun s => (answer lookup start s).getD default, stateAfter lookup start all,
        all.find? fun s => (answer lookup start s).isNone) := by
  rw [run_ofFnM, stateAfter_padded, answer_padded, calls_all, List.find?_map, Option.none_or,
    Option.map_map]
  simp [Function.comp_def]

theorem resolveOnce_eq (lookup : Symbol → StateM σ (Option Address)) :
    resolveOnce lookup = resolveM lookup := by
  funext start
  refine Eq.trans ?_ (run_resolveM lookup start).symm
  unfold resolveOnce resolve
  -- `rw` would go on to compare the pairs, and look every symbol up.
  rewrite [run_ofFnM_padded]
  cases all.find? fun s => (answer lookup start s).isNone with
  | none => rfl
  | some s => rfl

/-! ## Building and reading -/

/-- The layout has the answers to one call for each symbol. The calls are made in order. -/
structure BuiltInOrder (f : Symbol → StateM σ Address) (start : σ) : Prop where
  calls : (ofFnM (logged f)).run (start, []) =
    (((ofFnM f).run start).1, ((ofFnM f).run start).2, all.map fun s => (s, answer f start s))
  state : ((ofFnM f).run start).2 = stateAfter f start all
  get : ∀ s, ((ofFnM f).run start).1.get s = answer f start s

/-- All calls are made, whatever they answer. The first symbol without an address is reported. -/
structure ResolvedInOrder (lookup : Symbol → StateM σ (Option Address)) (start : σ) : Prop where
  calls : (resolveM (logged lookup)).run (start, []) =
    (((resolveM lookup).run start).1, ((resolveM lookup).run start).2,
      all.map fun s => (s, answer lookup start s))
  state : ((resolveM lookup).run start).2 = stateAfter lookup start all
  exists_ok_iff : (∃ l, ((resolveM lookup).run start).1 = .ok l) ↔
    ∀ s, (answer lookup start s).isSome
  ok_iff : ∀ l, ((resolveM lookup).run start).1 = .ok l ↔
    ∀ s, answer lookup start s = some (l.get s)
  error_iff : ∀ d, ((resolveM lookup).run start).1 = .error d ↔
    ∃ s, IsFirst (fun t => answer lookup start t = none) all s ∧ d = .missingSymbol s
  once : resolveOnce lookup = resolveM lookup

/-- The layout is built again from its own addresses, and they are found by name. -/
structure ReadBack (l : Layout) : Prop where
  ofFn_get : ofFn l.get = l
  resolve_get : resolve (fun s => some (l.get s)) = .ok l
  resolveM_get : ∀ (σ : Type) (start : σ),
    (resolveM fun s => (pure (some (l.get s)) : StateM σ (Option Address))).run start = (.ok l, start)
  address?_name : ∀ s : Symbol, l.address? s.name = some (l.get s)
  address?_eq_none : ∀ t : String, (∀ s : Symbol, s.name ≠ t) → l.address? t = none

theorem builtInOrder (f : Symbol → StateM σ Address) (start : σ) : BuiltInOrder f start where
  calls := by
    rw [ofFnM, StateT.run_bind, run_tabulateM_logged, run_ofFnM]
    rfl
  state := by rw [run_ofFnM]
  get s := by rw [run_ofFnM, get_ofFn]

theorem resolvedInOrder (lookup : Symbol → StateM σ (Option Address)) (start : σ) :
    ResolvedInOrder lookup start where
  calls := by
    rw [resolveM, StateT.run_bind, run_tabulateM_logged, run_resolveM]
    rfl
  state := by rw [run_resolveM]
  exists_ok_iff := by
    rw [run_resolveM]
    exact exists_resolve_eq_ok_iff
  ok_iff l := by
    rw [run_resolveM]
    exact resolve_eq_ok_iff
  error_iff d := by
    rw [run_resolveM]
    exact resolve_eq_error_iff
  once := resolveOnce_eq lookup

theorem readBack (l : Layout) : l.ReadBack where
  ofFn_get := ofFn_get l
  resolve_get := resolve_eq_ok_iff.mpr fun _ => rfl
  resolveM_get σ start := by
    rw [run_resolveM, stateAfter_pure]
    exact congrArg (·, start) (resolve_eq_ok_iff.mpr fun _ => rfl)
  address?_name := address?_name l
  address?_eq_none _ := address?_eq_none_iff.mpr

/-- Every symbol is looked up once and in order, and the answers can be read from the layout. -/
theorem built_and_readBack (f : Symbol → StateM σ Address)
    (lookup : Symbol → StateM σ (Option Address)) (start : σ) (l : Layout) :
    (∀ s, all.count s = 1) ∧ BuiltInOrder f start ∧ ResolvedInOrder lookup start ∧ l.ReadBack :=
  ⟨count_all, builtInOrder f start, resolvedInOrder lookup start, readBack l⟩

-- Every fourth call is without an address. All calls are made, and the first of these is reported.
example : (resolveM (m := StateM UInt64) fun _ n =>
    (if n % 4 = 3 then none else some ⟨n⟩, n + 1)).run 0 =
      (.error (.missingSymbol .etrampoline), 15) := by rfl

end Layout

end KernelImage
