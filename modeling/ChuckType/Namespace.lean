import ChuckType.Transaction

/-! chuck_type.h | struct Chuck_Namespace | commit · rollback

    A namespace holds three scopes, for types, values and functions, which the type checker drives
    one call at a time; `commit()` and `rollback()` apply the scope's call to all three (their
    `EM_log` line is not modelled). A call on one table leaves the others as they are
    (`step_tables`), so the rollback law of a single scope lifts to the namespace: a fragment
    checked at the top level of all three tables and rolled back leaves every lookup of every
    table as it was (`rollback_restores_namespace`). `rollback_atomicity` gathers the whole
    law. -/

namespace ChuckType

variable {α : Type}

/-- The three tables of a `Chuck_Namespace`. -/
inductive Table where
  | type
  | value
  | func
  deriving DecidableEq, Repr

/-- `Chuck_Namespace`'s scopes `type`, `value` and `func` (its other members are read by no call
modelled here). -/
structure Namespace (α : Type) where
  type : Scope α
  value : Scope α
  func : Scope α

namespace Namespace

/-- The table a call is made on. -/
def table (n : Namespace α) : Table → Scope α
  | .type => n.type
  | .value => n.value
  | .func => n.func

/-- The namespace with one table replaced. -/
def update (n : Namespace α) : Table → Scope α → Namespace α
  | .type, s => { n with type := s }
  | .value, s => { n with value := s }
  | .func, s => { n with func := s }

@[simp] theorem table_update (n : Namespace α) (τ : Table) (s : Scope α) :
    (n.update τ s).table τ = s := by
  cases τ <;> rfl

theorem table_update_ne (n : Namespace α) {τ τ' : Table} (s : Scope α) (h : τ' ≠ τ) :
    (n.update τ s).table τ' = n.table τ' := by
  cases τ <;> cases τ' <;> first | rfl | exact absurd rfl h

/-- `commit()`: `type.commit(); value.commit(); func.commit();`. -/
def commit (n : Namespace α) : Namespace α := ⟨n.type.commit, n.value.commit, n.func.commit⟩

/-- `rollback()`: `type.rollback(); value.rollback(); func.rollback();`. -/
def rollback (n : Namespace α) : Option (Namespace α) := do
  let type ← n.type.rollback
  let value ← n.value.rollback
  let func ← n.func.rollback
  pure ⟨type, value, func⟩

/-- A call on one table, as the type checker makes them (`nspc->value.push()` and the like). -/
def step (n : Namespace α) (τ : Table) (op : Op α) : Option (Namespace α × Result α) :=
  ((n.table τ).step op).map fun p => (n.update τ p.1, p.2)

/-- A sequence of calls on the tables. -/
def run (n : Namespace α) (ops : List (Table × Op α)) : Option (Namespace α × List (Result α)) :=
  runSteps (fun n p => n.step p.1 p.2) n ops

/-- A call on one table keeps, of every table, a property that a call keeps of a scope. -/
theorem step_tables (P : Table → Scope α → Prop) (Q : Op α → Prop)
    (step_P : ∀ {τ s op t r}, Q op → P τ s → s.step op = some (t, r) → P τ t)
    {n m : Namespace α} {τ : Table} {op : Op α} {r : Result α} (hq : Q op)
    (hn : ∀ τ, P τ (n.table τ)) (h : n.step τ op = some (m, r)) : ∀ τ', P τ' (m.table τ') := by
  obtain ⟨⟨t, r'⟩, ht, he⟩ := Option.map_eq_some'.1 h
  cases he
  intro τ'
  by_cases h' : τ' = τ
  · subst h'; rw [table_update]; exact step_P hq (hn τ') ht
  · rw [table_update_ne _ _ h']; exact hn τ'

/-- A fragment checked at the top level of all three tables, storing no null and neither
committing nor resetting, then `rollback()`: every lookup of every table answers as before. -/
theorem rollback_restores_namespace {n₀ n : Namespace α} {ops : List (Table × Op α)}
    {rs : List (Result α)} (h₀ : ∀ τ, (n₀.table τ).inner = [] ∧ (n₀.table τ).commitMap.entries = [])
    (hops : ∀ p ∈ ops, p.2.NonNull ∧ p.2 ≠ .commit ∧ p.2 ≠ .reset)
    (hrun : n₀.run ops = some (n, rs)) (hn : ∀ τ, (n.table τ).inner = []) :
    ∃ m, n.rollback = some m ∧ ∀ τ, (m.table τ).commitMap.entries = [] ∧
      ∀ xid climb, ((m.table τ).lookup xid climb).1 = ((n₀.table τ).lookup xid climb).1 := by
  have inv := runSteps_invariant (fun n : Namespace α => ∀ τ, Scope.Kept (n₀.table τ) (n.table τ))
    (fun p => p.2.NonNull ∧ p.2 ≠ .commit ∧ p.2 ≠ .reset)
    (fun hq hn h => step_tables (fun τ => Scope.Kept (n₀.table τ)) _ (fun hq hs h => hs.step hq h)
      hq hn h)
    hops (fun τ => Scope.kept_self (h₀ τ).2) hrun
  choose u hu using fun τ => Scope.rollback_restores (h₀ τ).1 (h₀ τ).2 (inv τ) (hn τ)
  refine ⟨⟨u .type, u .value, u .func⟩, ?_, fun τ => ?_⟩
  · simp only [rollback, show n.type = n.table .type from rfl,
      show n.value = n.table .value from rfl, show n.func = n.table .func from rfl, (hu _).1]
    rfl
  · cases τ <;> exact (hu _).2

end Namespace

/-- Rollback atomicity: every call but `commit()` and `reset()` keeps what the outermost frame
answers; so from depth one with nothing pending, a run that stores no null, neither commits nor
resets and ends at depth one, then `rollback()`, empties the buffer and restores every lookup — for
a scope, and for the three tables of a namespace together. -/
theorem rollback_atomicity :
    (∀ (s t : Scope α) (op : Op α) (r : Result α), op ≠ .commit → op ≠ .reset →
      s.step op = some (t, r) → t.front.read = s.front.read) ∧
    (∀ (s₀ t : Scope α) (ops : List (Op α)) (rs : List (Result α)),
      s₀.inner = [] → s₀.commitMap.entries = [] →
      (∀ op ∈ ops, op.NonNull ∧ op ≠ .commit ∧ op ≠ .reset) →
      s₀.run ops = some (t, rs) → t.inner = [] →
      ∃ u, t.rollback = some u ∧ u.commitMap.entries = [] ∧
        ∀ xid climb, (u.lookup xid climb).1 = (s₀.lookup xid climb).1) ∧
    (∀ (n₀ n : Namespace α) (ops : List (Table × Op α)) (rs : List (Result α)),
      (∀ τ, (n₀.table τ).inner = [] ∧ (n₀.table τ).commitMap.entries = []) →
      (∀ p ∈ ops, p.2.NonNull ∧ p.2 ≠ .commit ∧ p.2 ≠ .reset) →
      n₀.run ops = some (n, rs) → (∀ τ, (n.table τ).inner = []) →
      ∃ m, n.rollback = some m ∧ ∀ τ, (m.table τ).commitMap.entries = [] ∧
        ∀ xid climb, ((m.table τ).lookup xid climb).1 = ((n₀.table τ).lookup xid climb).1) :=
  ⟨fun _ _ _ _ hc hr h => Scope.front_read_step hc hr h,
    fun _ _ _ _ h₀ hc₀ hops hrun ht => Scope.rollback_restores_run h₀ hc₀ hops hrun ht,
    fun _ _ _ _ h₀ hops hrun hn => Namespace.rollback_restores_namespace h₀ hops hrun hn⟩

/-- A fragment that opens a block, adds in it, closes it and stages `x`, then `rollback()`: on a
scope, and on the value table of a namespace whose other tables it leaves alone. -/
theorem rollback_atomicity_fragment :
    (∃ u, ((Scope.new : Scope Nat).add "x" (some 1)).rollback = some u ∧ u.commitMap.entries = [] ∧
      ∀ xid climb, (u.lookup xid climb).1 = ((Scope.new : Scope Nat).lookup xid climb).1) ∧
    (∃ m, (⟨.new, (Scope.new : Scope Nat).add "x" (some 1), .new⟩ : Namespace Nat).rollback =
        some m ∧ ∀ τ, (m.table τ).commitMap.entries = [] ∧
          ∀ xid climb, ((m.table τ).lookup xid climb).1 =
            (((⟨.new, .new, .new⟩ : Namespace Nat).table τ).lookup xid climb).1) :=
  ⟨(@rollback_atomicity Nat).2.1 .new _ [.push, .add "y" (some 2), .pop, .add "x" (some 1)]
      [.done, .done, .done, .done] rfl rfl (by simp [Op.NonNull]) rfl rfl,
    (@rollback_atomicity Nat).2.2 ⟨.new, .new, .new⟩ _
      [(.value, .push), (.value, .add "y" (some 2)), (.value, .pop), (.value, .add "x" (some 1))]
      [.done, .done, .done, .done] (fun τ => by cases τ <;> exact ⟨rfl, rfl⟩)
      (by simp [Op.NonNull]) rfl (fun τ => by cases τ <;> rfl)⟩

end ChuckType
