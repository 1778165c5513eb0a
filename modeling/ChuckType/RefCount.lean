import ChuckType.Run

/-! chuck_type.h | Chuck_Scope::add · rollback · pop · reset · commit | reference accounting

    `add` takes a reference on a non-null value (`CK_SAFE_ADD_REF`) and `rollback()` releases one
    per pending value; no other call touches a count. `slots s o` counts the entries holding `o`,
    in the frames and in `commit_map`. Calls drop slots without releasing them: `pop()` ("TODO:
    release contents of scope.back()"), `reset()`, and an `add` or `commit()` that overwrites an
    entry, so the balance `added − released = slots` fails after `push(); add(x, o); pop()`
    (`pop_keeps_reference`). The other half holds over every run: a slot is released at most once,
    `slots + released ≤ added` from a new scope (`slots_add_released_le`), so the scope never
    releases a reference it does not hold. `dropped` counts the slots a call deletes or
    overwrites without `release()`; with it the balance is exact over every run from a new scope,
    `slots + released + dropped = added` (`slots_released_dropped_eq`), so those calls are the only
    places a reference leaks. -/

namespace ChuckType

variable {α : Type} [DecidableEq α]

namespace Frame

/-- Entries of the frame holding `o`. -/
def count (m : Frame α) (o : α) : Nat := m.entries.countP fun e => e.2 = some o

@[simp] theorem count_empty (o : α) : (∅ : Frame α).count o = 0 := rfl

/-- `operator[]`'s null entries hold no object. -/
@[simp] theorem count_touch (m : Frame α) (xid : String) (o : α) :
    (m.touch xid).count o = m.count o := by
  unfold touch
  split
  · rfl
  · next h =>
    simp only [count, Frame.insert, AList.insert_entries,
      List.kerase_of_not_mem_keys (AList.mem_keys.not.1 h)]
    simp

/-- One if the entry for `xid` holds `o`: the slot an assignment `(*m)[xid] = v` overwrites. -/
def held (m : Frame α) (xid : String) (o : α) : Nat := if m.lookup xid = some (some o) then 1 else 0

private theorem countP_kerase (xid : String) (o : α) :
    ∀ l : List (Sigma fun _ : String => Option α),
      (l.kerase xid).countP (fun e => e.2 = some o) +
          (if l.dlookup xid = some (some o) then 1 else 0) = l.countP fun e => e.2 = some o
  | [] => rfl
  | ⟨k, v⟩ :: l => by
    by_cases h : xid = k
    · subst h
      simp [List.kerase_cons_eq, List.countP_cons]
    · have := countP_kerase xid o l
      simp only [List.countP_cons, List.dlookup_cons_ne l ⟨k, v⟩ h,
        List.kerase_cons_ne (show xid ≠ (⟨k, v⟩ : Sigma fun _ : String => Option α).1 from h)]
      omega

/-- An assignment replaces the slot it overwrites by one holding the new value. -/
theorem count_insert (m : Frame α) (xid : String) (v : Option α) (o : α) :
    (m.insert xid v).count o + m.held xid o = m.count o + if v = some o then 1 else 0 := by
  have := countP_kerase xid o m.entries
  simp only [count, held, Frame.insert, AList.insert_entries, List.countP_cons,
    decide_eq_true_eq, AList.lookup] at this ⊢
  omega

private theorem count_foldl_insert (o : α) :
    ∀ l : List (Sigma fun _ : String => Option α), l.NodupKeys → ∀ front : Frame α,
      (l.foldl (fun m e => m.insert e.1 e.2) front).count o +
          (l.countP fun e => front.lookup e.1 = some (some o)) =
        front.count o + l.countP fun e => e.2 = some o
  | [], _, _ => by simp
  | ⟨k, v⟩ :: l, nd, front => by
    rw [List.nodupKeys_cons] at nd
    have hkeep : (l.countP fun e => front.lookup e.1 = some (some o)) =
        l.countP fun e => (front.insert k v).lookup e.1 = some (some o) :=
      List.countP_congr fun e he => by
        have hne : e.1 ≠ k := fun h => nd.1 (show k ∈ l.keys from h ▸ List.mem_keys_of_mem he)
        simp only [Frame.insert, AList.lookup_insert_ne hne]
    have ih := count_foldl_insert o l nd.2 (front.insert k v)
    have hins := count_insert front k v o
    simp only [held] at hins
    simp only [List.foldl_cons, List.countP_cons, decide_eq_true_eq, hkeep]
    omega

/-- The loop of `commit()` moves every pending slot into the outermost frame, overwriting the
outermost entries of the pending names. -/
theorem count_publish (pending front : Frame α) (o : α) :
    (Scope.publish pending front).count o +
        (pending.entries.countP fun e => front.lookup e.1 = some (some o)) =
      front.count o + pending.count o :=
  count_foldl_insert o pending.entries pending.nodupKeys front

end Frame

namespace Scope

/-- Slots holding `o`: entries of every frame and of `commit_map`. -/
def slots (s : Scope α) (o : α) : Nat :=
  s.front.count o + s.inner.foldr (fun m n => m.count o + n) 0 + s.commitMap.count o

/-- `CK_SAFE_ADD_REF(value)` in `add`: one reference on a non-null value. -/
def added : Op α → α → Nat
  | .add _ (some v), o => if v = o then 1 else 0
  | _, _ => 0

/-- `release()` on each pending value in `rollback()`. -/
def released (s : Scope α) : Op α → α → Nat
  | .rollback, o => s.commitMap.count o
  | _, _ => 0

/-- The references a run of calls takes on `o`. -/
def addedRun : List (Op α) → α → Nat
  | [], _ => 0
  | op :: ops, o => added op o + addedRun ops o

/-- The releases of `o` along a run. -/
def releasedRun (s : Scope α) : List (Op α) → α → Nat
  | [], _ => 0
  | op :: ops, o =>
    match s.step op with
    | none => 0
    | some (t, _) => s.released op o + t.releasedRun ops o

/-- Slots holding `o` that a call deletes or overwrites without `release()`: `pop()` deletes
`scope.back()` ("TODO: release contents"), `reset()` clears every frame, an `add` overwrites the
entry it assigns, and `commit()` each outermost entry a pending one replaces. -/
def dropped (s : Scope α) : Op α → α → Nat
  | .pop, o =>
    match s.inner with
    | [] => 0
    | m :: _ => m.count o
  | .reset, o => s.front.count o + s.inner.foldr (fun m n => m.count o + n) 0
  | .add xid _, o =>
    match s.inner with
    | [] => s.commitMap.held xid o
    | m :: _ => m.held xid o
  | .commit, o => s.commitMap.entries.countP fun e => s.front.lookup e.1 = some (some o)
  | _, _ => 0

/-- The slots of `o` dropped along a run. -/
def droppedRun (s : Scope α) : List (Op α) → α → Nat
  | [], _ => 0
  | op :: ops, o =>
    match s.step op with
    | none => 0
    | some (t, _) => s.dropped op o + t.droppedRun ops o

theorem slots_lookup (s : Scope α) (xid : String) (climb : Int) (o : α) :
    (s.lookup xid climb).2.slots o = s.slots o := by
  obtain ⟨hf, hi, hc⟩ :=
    lookup_frames (Frame.count · o) (fun m xid => Frame.count_touch m xid o) s xid climb
  have hsum := congrArg (List.foldr (· + ·) 0) hi
  simp only [List.foldr_map] at hf hsum
  simp only [slots, hf, hsum, hc]

/-- One call: the slots it leaves, the releases it makes and the slots it drops are the slots
before and the references it takes. -/
theorem slots_step_eq {s t : Scope α} {op : Op α} {r : Result α} (h : s.step op = some (t, r))
    (o : α) : t.slots o + s.released op o + s.dropped op o = s.slots o + added op o := by
  cases op with
  | push => cases h; simp [slots, released, dropped, added]
  | pop =>
    obtain ⟨hne, rfl, -⟩ := step_pop_eq_some.1 h
    obtain ⟨m, rest, hi⟩ := List.exists_cons_of_ne_nil hne
    simp [slots, released, dropped, added, hi]; omega
  | reset => cases h; simp [slots, released, dropped, added]; omega
  | commit =>
    cases h
    have := Frame.count_publish s.commitMap s.front o
    simp [slots, released, dropped, added]; omega
  | rollback =>
    obtain ⟨-, rfl, -⟩ := step_rollback_eq_some.1 h
    simp [slots, released, dropped, added]
  | add xid v =>
    cases h
    have hadd : (if v = some o then 1 else 0) = added (.add xid v) o := by
      cases v <;> simp [added]
    rcases hi : s.inner with _ | ⟨m, rest⟩
    · have := Frame.count_insert s.commitMap xid v o
      rw [add_of_inner_nil hi]; simp [slots, released, dropped, hi] at this ⊢; omega
    · have := Frame.count_insert m xid v o
      rw [add_of_inner_cons hi]; simp [slots, released, dropped, hi] at this ⊢; omega
  | lookup xid c => cases h; simp [slots_lookup, released, dropped, added]
  | getLevel k m =>
    obtain ⟨-, -, rfl, -⟩ := step_getLevel_eq_some.1 h; simp [released, dropped, added]

theorem slots_run_eq {s t : Scope α} {ops : List (Op α)} {rs : List (Result α)}
    (h : s.run ops = some (t, rs)) (o : α) :
    t.slots o + s.releasedRun ops o + s.droppedRun ops o = s.slots o + addedRun ops o := by
  induction ops generalizing s rs with
  | nil => cases h; simp [releasedRun, droppedRun, addedRun]
  | cons op ops ih =>
    obtain ⟨t₁, r, rs', h₁, h₂, -⟩ := run_cons_eq_some.1 h
    have := slots_step_eq h₁ o
    have := ih h₂
    simp only [releasedRun, droppedRun, addedRun, h₁]
    omega

/-- Over a run, the slots left and the releases made are at most the slots before and the
references taken. -/
theorem slots_run {s t : Scope α} {ops : List (Op α)} {rs : List (Result α)}
    (h : s.run ops = some (t, rs)) (o : α) :
    t.slots o + s.releasedRun ops o ≤ s.slots o + addedRun ops o := by
  have := slots_run_eq h o
  omega

/-- Reference conservation: after every run from a new scope, each reference `add` took on `o` is
held in a slot, released by `rollback()`, or dropped without release by a `pop()`, a `reset()`, or
an `add` or `commit()` overwriting its entry. -/
theorem slots_released_dropped_eq (ops : List (Op α)) (t : Scope α) (rs : List (Result α))
    (h : (new : Scope α).run ops = some (t, rs)) (o : α) :
    t.slots o + (new : Scope α).releasedRun ops o + (new : Scope α).droppedRun ops o =
      addedRun ops o := by
  simpa [slots, new] using slots_run_eq h o

/-- A name committed twice: the second `commit()` overwrites the first reference without release. -/
theorem slots_released_dropped_eq_recommit :
    (new : Scope Nat).run [.add "x" (some 7), .commit, .add "x" (some 7), .commit] =
      some ((((new : Scope Nat).add "x" (some 7)).commit.add "x" (some 7)).commit,
        [.done, .done, .done, .done]) ∧
    ((((new : Scope Nat).add "x" (some 7)).commit.add "x" (some 7)).commit).slots 7 +
        (new : Scope Nat).releasedRun [.add "x" (some 7), .commit, .add "x" (some 7), .commit] 7 +
        (new : Scope Nat).droppedRun [.add "x" (some 7), .commit, .add "x" (some 7), .commit] 7 =
      addedRun ([.add "x" (some 7), .commit, .add "x" (some 7), .commit] : List (Op Nat)) 7 :=
  have hrun : (new : Scope Nat).run [.add "x" (some 7), .commit, .add "x" (some 7), .commit] =
      some ((((new : Scope Nat).add "x" (some 7)).commit.add "x" (some 7)).commit,
        [.done, .done, .done, .done]) := rfl
  ⟨hrun, slots_released_dropped_eq _ _ _ hrun 7⟩

example : (new : Scope Nat).droppedRun [.add "x" (some 7), .commit, .add "x" (some 7), .commit] 7 =
    1 := by
  decide

/-- The scope never releases a reference it does not hold: after every run from a new scope, the
slots holding `o` plus the releases of `o` are at most the references taken on `o`. -/
theorem slots_add_released_le (ops : List (Op α)) (t : Scope α) (rs : List (Result α))
    (h : (new : Scope α).run ops = some (t, rs)) (o : α) :
    t.slots o + (new : Scope α).releasedRun ops o ≤ addedRun ops o := by
  simpa [slots, new] using slots_run h o

theorem slots_add_released_le_rollback :
    (new : Scope Nat).run [.add "x" (some 7), .rollback] =
      some (new, [.done, .done]) ∧
    (new : Scope Nat).slots 7 + (new : Scope Nat).releasedRun [.add "x" (some 7), .rollback] 7 ≤
      addedRun ([.add "x" (some 7), .rollback] : List (Op Nat)) 7 :=
  ⟨rfl, slots_add_released_le [.add "x" (some 7), .rollback] new [.done, .done] rfl 7⟩

/-- `push(); add(x, o); pop()` from a new scope: one reference taken, none released, no slot
left — `pop()` drops the block's entries without releasing them. -/
theorem pop_keeps_reference :
    addedRun ([.push, .add "x" (some 7), .pop] : List (Op Nat)) 7 = 1 ∧
    (new : Scope Nat).releasedRun [.push, .add "x" (some 7), .pop] 7 = 0 ∧
    ((new : Scope Nat).run [.push, .add "x" (some 7), .pop]).map (·.1.slots 7) = some 0 := by
  decide

end Scope

end ChuckType
