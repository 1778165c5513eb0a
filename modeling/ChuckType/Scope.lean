import ChuckType.Frame

/-! chuck_type.h | struct Chuck_Scope | push · pop · reset · commit · rollback · add · lookup ·
    get_level

    The scoped symbol table: a stack of frames `scope` and the pending buffer `commit_map`. The
    vector `scope` is kept as its outermost frame `front` and the frames above it, innermost first,
    in `inner`; so `scope.back()` is the head of `inner` (or `front` at depth one) and the vector is
    never empty. Every frame is its own `new` allocation, so the pointer test
    `scope.back() != scope.front()` holds exactly when `inner` is not empty.

    The calls are modelled one function each, as the header writes them; `step` dispatches a call
    and `run` threads a sequence of calls, returning what each call hands back. An assertion that
    fails, or `release()` on a null pending value, is a missing result.

        add at depth 1 ──▶ commit_map ──commit──▶ front        rollback: commit_map ──▶ ∅
        add at depth ≥ 2 ──▶ head of inner                     reset: frames ──▶ [∅] -/

namespace ChuckType

variable {α : Type}

/-- `Chuck_Scope<T>`: the frames `front :: inner.reverse` and the pending buffer `commit_map`. -/
structure Scope (α : Type) where
  /-- `scope.front()`, the outermost frame. -/
  front : Frame α
  /-- The frames above the outermost, innermost first. -/
  inner : List (Frame α)
  /-- `commit_map`: top-level adds staged until `commit()`. -/
  commitMap : Frame α

namespace Scope

/-- `scope.size()`. -/
def depth (s : Scope α) : Nat := s.inner.length + 1

/-- The vector `scope`, outermost first, as `scope[level]` indexes it. -/
def scope (s : Scope α) : List (Frame α) := s.front :: s.inner.reverse

/-- `Chuck_Scope()`: one empty frame pushed, nothing pending. -/
def new : Scope α := ⟨∅, [], ∅⟩

/-- `push()`: a new empty innermost frame. -/
@[simps] def push (s : Scope α) : Scope α := { s with inner := ∅ :: s.inner }

/-- `pop()`: drop the innermost frame. Popping the outermost one is left to the destructor (every
other member asserts `scope.size() != 0`), so here it has no result. -/
def pop (s : Scope α) : Option (Scope α) :=
  match s.inner with
  | [] => none
  | _ :: rest => some { s with inner := rest }

/-- `reset()`: `scope.clear(); this->push();` — `commit_map` is left as it is. -/
@[simps] def reset (s : Scope α) : Scope α := ⟨∅, [], s.commitMap⟩

/-- The loop of `commit()`: `(*scope.front())[k] = v` for each entry of `commit_map`, in order. -/
def publish (pending front : Frame α) : Frame α :=
  pending.entries.foldl (fun m e => m.insert e.1 e.2) front

/-- `commit()`: write the pending buffer over the outermost frame, then clear it. -/
@[simps] def commit (s : Scope α) : Scope α :=
  { s with front := publish s.commitMap s.front, commitMap := ∅ }

/-- `rollback()`: `release()` every pending value, then clear the buffer. On a null value the
`release()` call dereferences `NULL`: no result. -/
def rollback (s : Scope α) : Option (Scope α) :=
  if s.commitMap.entries.all (·.2.isSome) then some { s with commitMap := ∅ } else none

/-- `add(xid, value)`: into `scope.back()` if it is not `scope.front()`, else into `commit_map`. -/
def add (s : Scope α) (xid : String) (value : Option α) : Scope α :=
  match s.inner with
  | [] => { s with commitMap := s.commitMap.insert xid value }
  | m :: rest => { s with inner := m.insert xid value :: rest }

/-- The `climb < 0` branch: `(*scope.front())[xid]`, then `commit_map` if that is null. -/
def lookupFront (s : Scope α) (xid : String) : Option α × Scope α :=
  (s.front.read xid <|> s.commitMap.read xid, { s with front := s.front.touch xid })

/-- The `climb == 0` branch: `(*scope.back())[xid]`, then `commit_map` only if back is front. -/
def lookupBack (s : Scope α) (xid : String) : Option α × Scope α :=
  match s.inner with
  | [] => s.lookupFront xid
  | m :: rest => (m.read xid, { s with inner := m.touch xid :: rest })

/-- The loop of the `climb > 0` branch over the frames above the outermost, innermost first:
`val = (*scope[i - 1])[xid]` until `val` is not null. -/
def search : List (Frame α) → String → Option α × List (Frame α)
  | [], _ => (none, [])
  | m :: ms, xid =>
    match m.read xid with
    | some v => (some v, m :: ms)
    | none => ((search ms xid).1, m.touch xid :: (search ms xid).2)

/-- The `climb > 0` branch: `search`, then the outermost frame and `commit_map` as for
`climb < 0`. -/
def lookupClimb (s : Scope α) (xid : String) : Option α × Scope α :=
  match search s.inner xid with
  | (some v, inner) => (some v, { s with inner := inner })
  | (none, inner) => lookupFront { s with inner := inner } xid

/-- `lookup(xid, climb)`: "-1 base, 0 current, 1 climb"; the value found and the scope after. -/
def lookup (s : Scope α) (xid : String) (climb : Int) : Option α × Scope α :=
  if climb = 0 then s.lookupBack xid else if 0 < climb then s.lookupClimb xid else s.lookupFront xid

/-- One map's loop in `get_level`: each entry's value, skipping mangled names unless
`includeMangled`. -/
def listing (m : Frame α) (includeMangled : Bool) : List (Option α) :=
  (m.entries.filter fun e => includeMangled || !isMangled e.1).map (·.2)

/-- `get_level(level, out, includeMangled)`: `out` lists frame `level`, then for level 0 also
`commit_map`; asserts `scope.size() > level`. -/
def getLevel (s : Scope α) (level : Nat) (includeMangled : Bool) : Option (List (Option α)) :=
  s.scope[level]?.map fun m =>
    listing m includeMangled ++ if level = 0 then listing s.commitMap includeMangled else []

/-- `get_toplevel(out, includeMangled)`: `get_level(0, out, includeMangled)`. -/
def getToplevel (s : Scope α) (includeMangled : Bool) : Option (List (Option α)) :=
  s.getLevel 0 includeMangled

end Scope

/-- A call on a `Chuck_Scope`. -/
inductive Op (α : Type) where
  | push
  | pop
  | reset
  | commit
  | rollback
  | add (xid : String) (value : Option α)
  | lookup (xid : String) (climb : Int)
  | getLevel (level : Nat) (includeMangled : Bool)
  deriving DecidableEq, Repr

/-- What a call hands back: nothing, the `T` of `lookup`, or the `out` vector of `get_level`. -/
inductive Result (α : Type) where
  | done
  | value (v : Option α)
  | list (out : List (Option α))
  deriving DecidableEq, Repr

/-- A sequence of calls through a step function: the final state and each call's result, or `none`
if a call fails. -/
def runSteps {σ ι ρ : Type} (step : σ → ι → Option (σ × ρ)) : σ → List ι → Option (σ × List ρ)
  | s, [] => some (s, [])
  | s, op :: ops =>
    match step s op with
    | none => none
    | some (t, r) => (runSteps step t ops).map fun p => (p.1, r :: p.2)

namespace Scope

/-- One call: the scope after it and what it returns; `none` when the call fails. -/
def step (s : Scope α) : Op α → Option (Scope α × Result α)
  | .push => some (s.push, .done)
  | .pop => s.pop.map (·, .done)
  | .reset => some (s.reset, .done)
  | .commit => some (s.commit, .done)
  | .rollback => s.rollback.map (·, .done)
  | .add xid v => some (s.add xid v, .done)
  | .lookup xid c => some ((s.lookup xid c).2, .value (s.lookup xid c).1)
  | .getLevel k m => (s.getLevel k m).map (s, .list ·)

/-- A sequence of calls: the final scope and each call's result, or `none` if a call fails. -/
def run (s : Scope α) (ops : List (Op α)) : Option (Scope α × List (Result α)) :=
  runSteps step s ops

end Scope

end ChuckType
