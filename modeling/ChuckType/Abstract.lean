import ChuckType.Transaction

/-! chuck_type.h | Chuck_Scope | lookup refines the scoped table

    `ScopeSpec` is the scoped table the symbol table is meant to be: an outermost frame, the frames
    above it and a pending map, all holding only non-null values, changed by each call as the code
    changes its maps and untouched by lookups. Its `lookup` is the reference result: for
    `climb > 0` the innermost binding, else the pending value; for `climb == 0` the current frame,
    with the pending map only at depth one; for `climb < 0` the outermost frame, else the pending
    value. `Refines s t` relates a scope to such a table: the same reads frame by frame and no null
    pending value. Every call the table follows (`Op.fitsAt`: no `pop()` of the outermost frame,
    no `NULL` added at depth one, no `get_level`) keeps it and returns the reference result
    (`refines_step`), and succeeds (`step_isSome`); so every run of such calls from a new scope
    succeeds and answers as the table does (`lookup_refines`). A null staged at depth one and
    committed erases the committed binding, which the table cannot express
    (`staged_null_diverges`). -/

namespace ChuckType

variable {α : Type}

/-- A frame of the reference table: a finite map to non-null values. -/
abbrev Bindings (α : Type) := AList (fun _ : String => α)

/-- The reference scoped table: the outermost frame, the frames above it (innermost first) and the
pending map. -/
structure ScopeSpec (α : Type) where
  front : Bindings α
  inner : List (Bindings α)
  pending : Bindings α

namespace ScopeSpec

/-- One empty frame, nothing pending. -/
def new : ScopeSpec α := ⟨∅, [], ∅⟩

/-- What a frame of the table answers. -/
def reads (m : Bindings α) : String → Option α := fun xid => m.lookup xid

/-- Store a value; a null value leaves no binding. -/
def put (m : Bindings α) (xid : String) : Option α → Bindings α
  | some o => m.insert xid o
  | none => m.erase xid

/-- The reference lookup. -/
def lookup (t : ScopeSpec α) (xid : String) (climb : Int) : Option α :=
  if climb = 0 then
    match t.inner with
    | [] => t.front.lookup xid <|> t.pending.lookup xid
    | m :: _ => m.lookup xid
  else if 0 < climb then
    t.inner.findSome? (·.lookup xid) <|> t.front.lookup xid <|> t.pending.lookup xid
  else t.front.lookup xid <|> t.pending.lookup xid

/-- The calls on the table; `get_level` is not part of it. -/
def step (t : ScopeSpec α) : Op α → Option (ScopeSpec α × Result α)
  | .push => some ({ t with inner := ∅ :: t.inner }, .done)
  | .pop =>
    match t.inner with
    | [] => none
    | _ :: rest => some ({ t with inner := rest }, .done)
  | .reset => some (⟨∅, [], t.pending⟩, .done)
  | .commit => some ({ t with front := t.pending ∪ t.front, pending := ∅ }, .done)
  | .rollback => some ({ t with pending := ∅ }, .done)
  | .add xid v =>
    match t.inner with
    | [] => some ({ t with pending := put t.pending xid v }, .done)
    | m :: rest => some ({ t with inner := put m xid v :: rest }, .done)
  | .lookup xid c => some (t, .value (t.lookup xid c))
  | .getLevel _ _ => none

/-- A sequence of calls on the table. -/
def run (t : ScopeSpec α) (ops : List (Op α)) : Option (ScopeSpec α × List (Result α)) :=
  runSteps step t ops

theorem reads_insert (m : Bindings α) (xid : String) (o : α) :
    reads (m.insert xid o) = fun y => if y = xid then some o else reads m y := by
  funext y
  split
  · next h => subst h; simp [reads]
  · next h => simp [reads, h]

theorem lookup_union (m m' : Bindings α) (xid : String) :
    (m ∪ m').lookup xid = (m.lookup xid <|> m'.lookup xid) := by
  by_cases h : xid ∈ m
  · obtain ⟨o, ho⟩ := Option.isSome_iff_exists.1 (AList.lookup_isSome.2 h)
    rw [AList.lookup_union_left h, ho]; rfl
  · rw [AList.lookup_union_right h, AList.lookup_eq_none.2 h]; rfl

end ScopeSpec

/-- Two step functions agree on a call: both fail, or both succeed with related states and the same
result. -/
def StepRel {σ τ ρ : Type} (R : σ → τ → Prop) : Option (σ × ρ) → Option (τ × ρ) → Prop :=
  Option.Rel fun p q => R p.1 q.1 ∧ p.2 = q.2

/-- When the first call succeeds, so does the second, with a related state and the same result. -/
theorem StepRel.exists_of_some {σ τ ρ : Type} {R : σ → τ → Prop} {x : Option (σ × ρ)}
    {y : Option (τ × ρ)} {p : σ × ρ} (h : StepRel R x y) (hx : x = some p) :
    ∃ q, y = some q ∧ R p.1 q.1 ∧ p.2 = q.2 := by
  subst hx
  cases h with
  | some h => exact ⟨_, rfl, h⟩

/-- The depth after a call made at depth `d`. -/
def Op.nextDepth (d : Nat) : Op α → Nat
  | .push => d + 1
  | .pop => d - 1
  | .reset => 1
  | _ => d

/-- A call the table follows at depth `d`: a `pop()` has a frame above the outermost to remove,
`NULL` is added only into such a frame, and `get_level` is not a call of the table. -/
def Op.fitsAt (d : Nat) : Op α → Bool
  | .pop => 1 < d
  | .add _ none => 1 < d
  | .getLevel _ _ => false
  | _ => true

/-- A sequence of calls the table follows from depth `d`. -/
def fitsTable : Nat → List (Op α) → Bool
  | _, [] => true
  | d, op :: ops => op.fitsAt d && fitsTable (op.nextDepth d) ops

namespace Scope

/-- `s` refines the table `t`: every frame and the buffer answer reads alike, no pending value is
null. -/
structure Refines (s : Scope α) (t : ScopeSpec α) : Prop where
  front : s.front.read = ScopeSpec.reads t.front
  inner : s.inner.map Frame.read = t.inner.map ScopeSpec.reads
  pending : s.commitMap.read = ScopeSpec.reads t.pending
  live : s.Live

theorem refines_new : Refines (new : Scope α) ScopeSpec.new := ⟨rfl, rfl, rfl, by simp [Live, new]⟩

theorem Refines.mem_pending {s : Scope α} {t : ScopeSpec α} (h : Refines s t) (xid : String) :
    xid ∈ s.commitMap ↔ xid ∈ t.pending := by
  have hr := congrFun h.pending xid
  simp only [Frame.read, ScopeSpec.reads] at hr
  rw [← AList.lookup_isSome, ← AList.lookup_isSome, ← hr]
  rcases hl : s.commitMap.lookup xid with _ | _ | o
  · rfl
  · simpa using h.live _ (AList.mem_lookup_iff.1 hl)
  · rfl

/-- A refining scope finds what the table's lookup gives. -/
theorem Refines.find {s : Scope α} {t : ScopeSpec α} (h : Refines s t) (xid : String)
    (climb : Int) : s.find xid climb = t.lookup xid climb := by
  have hf := congrFun h.front xid
  have hp := congrFun h.pending xid
  have hfind : s.inner.findSome? (·.read xid) = t.inner.findSome? (·.lookup xid) := by
    simpa [List.findSome?_map, ScopeSpec.reads] using
      congrArg (List.findSome? (fun r => r xid)) h.inner
  unfold Scope.find ScopeSpec.lookup
  rcases map_eq_map_cases h.inner with ⟨hs, ht⟩ | ⟨m, ms, m', ms', hs, ht, hm, -⟩ <;>
    simp_all [ScopeSpec.reads]

theorem read_put (m : Frame α) (m' : Bindings α) (hm : m.read = ScopeSpec.reads m')
    (xid : String) (v : Option α) :
    (m.insert xid v).read = ScopeSpec.reads (ScopeSpec.put m' xid v) := by
  funext y
  rw [Frame.read_insert, hm]
  cases v with
  | some o => rw [ScopeSpec.put, ScopeSpec.reads_insert]
  | none =>
    rcases eq_or_ne y xid with rfl | hy
    · simp [ScopeSpec.put, ScopeSpec.reads]
    · simp [ScopeSpec.put, ScopeSpec.reads, hy]

/-- Every call the table follows keeps the refinement and returns the table's result. -/
theorem refines_step {s : Scope α} {t : ScopeSpec α} {op : Op α} (hn : op.fitsAt s.depth = true)
    (h : Refines s t) : StepRel Refines (s.step op) (t.step op) := by
  cases op with
  | push => exact .some ⟨⟨h.front, by simp [h.inner]; rfl, h.pending, h.live⟩, rfl⟩
  | pop =>
    rcases map_eq_map_cases h.inner with ⟨hs, ht⟩ | ⟨m, ms, m', ms', hs, ht, -, hms⟩
    · simp [step, pop, ScopeSpec.step, hs, ht]; exact .none
    · simp only [step, pop, ScopeSpec.step, hs, ht, Option.map_some']
      exact .some ⟨⟨h.front, hms, h.pending, h.live⟩, rfl⟩
  | reset => exact .some ⟨⟨rfl, rfl, h.pending, h.live⟩, rfl⟩
  | commit =>
    refine .some ⟨⟨funext fun xid => ?_, h.inner, rfl, by simp [Live]⟩, rfl⟩
    have hp := congrFun h.pending xid
    have hf := congrFun h.front xid
    simp only [commit_front, read_publish, h.mem_pending, hp, hf, ScopeSpec.reads,
      ScopeSpec.lookup_union, ← AList.lookup_isSome]
    cases t.pending.lookup xid <;> rfl
  | rollback =>
    simp only [step, ScopeSpec.step, rollback_eq_some.2 ⟨h.live, rfl⟩, Option.map_some']
    exact .some ⟨⟨h.front, h.inner, rfl, by simp [Live]⟩, rfl⟩
  | add xid v =>
    rcases map_eq_map_cases h.inner with ⟨hs, ht⟩ | ⟨m, ms, m', ms', hs, ht, hm, hms⟩ <;>
      simp only [step, ScopeSpec.step, ht]
    · obtain _ | o := v
      · simp [Op.fitsAt, depth, hs] at hn
      have hlive := live_step (show (Op.add xid (some o)).NonNull from trivial) h.live rfl
      rw [add_of_inner_nil hs] at hlive ⊢
      exact .some ⟨⟨h.front, by simp [hs, ht], read_put _ _ h.pending xid (some o), hlive⟩, rfl⟩
    · rw [add_of_inner_cons hs]
      exact .some ⟨⟨h.front, by simp [read_put _ _ hm xid v, hms], h.pending, h.live⟩, rfl⟩
  | lookup xid c =>
    have hv := view_lookup s xid c
    simp only [view, Prod.mk.injEq] at hv
    refine .some ⟨⟨hv.1.trans h.front, hv.2.1.trans h.inner, ?_, ?_⟩, ?_⟩
    · rw [commitMap_lookup]; exact h.pending
    · simpa [Live] using h.live
    · simp [lookup_fst, h.find]
  | getLevel k m => simp [Op.fitsAt] at hn

/-- A call the table follows succeeds on a scope with no null pending value. -/
theorem step_isSome {s : Scope α} {op : Op α} (hn : op.fitsAt s.depth = true) (hl : s.Live) :
    (s.step op).isSome := by
  cases op with
  | pop =>
    obtain ⟨m, ms, hi⟩ := List.exists_cons_of_length_pos (by simpa [Op.fitsAt, depth] using hn)
    simp [step, pop, hi]
  | rollback => simp [step, rollback_eq_some.2 ⟨hl, rfl⟩]
  | getLevel k m => simp [Op.fitsAt] at hn
  | _ => rfl

theorem depth_step {s t : Scope α} {op : Op α} {r : Result α} (h : s.step op = some (t, r)) :
    t.depth = op.nextDepth s.depth := by
  cases op with
  | push => cases h; simp [Op.nextDepth]
  | pop =>
    obtain ⟨hne, rfl, -⟩ := step_pop_eq_some.1 h
    have := List.length_pos.2 hne
    simp only [depth, Op.nextDepth, List.length_tail]
    omega
  | rollback => obtain ⟨-, rfl, -⟩ := step_rollback_eq_some.1 h; rfl
  | add xid v =>
    cases h
    rcases hi : s.inner with _ | ⟨m, ms⟩
    · rw [add_of_inner_nil hi]; rfl
    · simp [add_of_inner_cons hi, depth, Op.nextDepth, hi]
  | lookup xid c =>
    cases h
    simpa [depth, Op.nextDepth, view] using congrArg (·.2.1.length) (view_lookup s xid c)
  | getLevel k m => obtain ⟨-, -, rfl, -⟩ := step_getLevel_eq_some.1 h; rfl
  | reset => cases h; rfl
  | commit => cases h; rfl

/-- From a refining pair, every sequence of calls the table follows succeeds on both, returning
the same results call by call. -/
theorem refines_run : ∀ {ops : List (Op α)} {s : Scope α} {t : ScopeSpec α}, Refines s t →
    fitsTable s.depth ops = true →
      ∃ rs, (s.run ops).map (·.2) = some rs ∧ (t.run ops).map (·.2) = some rs
  | [], _, _, _, _ => ⟨[], rfl, rfl⟩
  | op :: ops, s, t, h, hf => by
    simp only [fitsTable, Bool.and_eq_true] at hf
    obtain ⟨⟨s', r⟩, hs⟩ := Option.isSome_iff_exists.1 (step_isSome hf.1 h.live)
    obtain ⟨⟨t', _⟩, hy, hR, rfl⟩ := (refines_step hf.1 h).exists_of_some hs
    obtain ⟨rs, h₁, h₂⟩ := @refines_run ops s' t' hR (by rw [depth_step hs]; exact hf.2)
    exact ⟨r :: rs, by simpa [run, runSteps, hs] using h₁,
      by simpa [ScopeSpec.run, runSteps, hy] using h₂⟩

/-- Lookup refines the scoped table: every run from a new scope that pops no frame at depth one,
adds `NULL` only above depth one and does not list a level, succeeds on the scope and on the table
alike, and returns call by call what the table returns, each lookup included. -/
theorem lookup_refines (ops : List (Op α)) (hops : fitsTable 1 ops = true) :
    ∃ rs, ((new : Scope α).run ops).map (·.2) = some rs ∧
      (ScopeSpec.new.run ops).map (·.2) = some rs :=
  refines_run refines_new hops

/-- Shadowing across a block, a `NULL` added inside it, and a commit. -/
theorem lookup_refines_shadowed :
    fitsTable 1 ([.add "x" (some 1), .push, .add "x" (some 2), .add "y" none, .lookup "x" 1,
      .lookup "y" 1, .pop, .lookup "x" 1, .commit, .lookup "x" (-1)] : List (Op Nat)) = true ∧
    ∃ rs, ((new : Scope Nat).run [.add "x" (some 1), .push, .add "x" (some 2), .add "y" none,
        .lookup "x" 1, .lookup "y" 1, .pop, .lookup "x" 1, .commit, .lookup "x" (-1)]).map (·.2) =
        some rs ∧
      (ScopeSpec.new.run [.add "x" (some 1), .push, .add "x" (some 2), .add "y" none,
        .lookup "x" 1, .lookup "y" 1, .pop, .lookup "x" 1, .commit, .lookup "x" (-1)]).map (·.2) =
        some rs :=
  ⟨rfl, lookup_refines _ rfl⟩

/-- A null staged at depth one over a committed binding, then committed: the scope finds nothing
where the table, which holds no null, still finds the old value. -/
theorem staged_null_diverges :
    ((new : Scope Nat).run [.add "x" (some 1), .commit, .add "x" none, .commit,
      .lookup "x" (-1)]).map (·.2) = some [.done, .done, .done, .done, .value none] ∧
    (ScopeSpec.new.run [.add "x" (some 1), .commit, .add "x" none, .commit,
      .lookup "x" (-1)]).map (·.2) = some [.done, .done, .done, .done, .value (some 1)] := by
  decide

end Scope

end ChuckType
