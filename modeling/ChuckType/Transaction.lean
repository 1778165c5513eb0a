import ChuckType.Run

/-! chuck_type.h | Chuck_Scope::commit · rollback · reset | the transaction laws

    `commit()` writes every pending entry over the outermost frame (`read_publish`), so a lookup
    changes across it only for a name that is both bound non-null in that frame and staged: before,
    the frame's value wins; after, the staged one (`lookup_commit`). `rollback()` discards the
    buffer, and every other call keeps what the outermost frame answers (`front_read_step`), so a
    fragment checked at depth one and rolled back leaves every lookup as it found it
    (`rollback_restores_run`). `reset()` drops every frame but keeps the buffer
    (`reset_sees_pending`). An `add` changes only what its own name finds; a value staged at depth
    one is found only where the outermost frame binds nothing (`lookup_add`). -/

namespace ChuckType

variable {α : Type}

/-- The call stores no null value: `add` is not passed `NULL`. -/
def Op.NonNull : Op α → Prop
  | .add _ none => False
  | _ => True

namespace Scope

/-- No pending value is null, so `rollback()` can `release()` each one. -/
def Live (s : Scope α) : Prop := ∀ e ∈ s.commitMap.entries, e.2.isSome

theorem find_of_inner_nil {s : Scope α} (h : s.inner = []) (xid : String) (climb : Int) :
    s.find xid climb = (s.front.read xid <|> s.commitMap.read xid) := by
  unfold find; split_ifs <;> simp [h]

/-! ### Commit -/

private theorem lookup_foldl_insert (xid : String) :
    ∀ (l : List (Sigma fun _ : String => Option α)), l.NodupKeys → ∀ m : Frame α,
      (l.foldl (fun m e => m.insert e.1 e.2) m).lookup xid = (l.dlookup xid <|> m.lookup xid)
  | [], _, _ => rfl
  | ⟨k, v⟩ :: l, h, m => by
    rw [List.nodupKeys_cons] at h
    rw [List.foldl_cons, lookup_foldl_insert xid l h.2]
    by_cases hx : xid = k
    · subst hx; simp [List.dlookup_eq_none.2 h.1, Frame.insert]
    · simp [hx, Frame.insert, List.dlookup_cons_ne]

theorem lookup_publish (pending front : Frame α) (xid : String) :
    (publish pending front).lookup xid = (pending.lookup xid <|> front.lookup xid) :=
  lookup_foldl_insert xid pending.entries pending.nodupKeys front

/-- The loop of `commit()` writes each pending entry, null ones included, over the frame. -/
theorem read_publish (pending front : Frame α) (xid : String) :
    (publish pending front).read xid =
      if xid ∈ pending then pending.read xid else front.read xid := by
  simp only [Frame.read, lookup_publish, ← AList.lookup_isSome]
  cases pending.lookup xid <;> rfl

/-- What the outermost frame and the buffer answer together is kept by `commit()`, except for a
name bound non-null in the frame and staged. -/
theorem front_orElse_commit (s : Scope α) (xid : String)
    (h : s.front.read xid = none ∨ xid ∉ s.commitMap) :
    (s.commit.front.read xid <|> s.commit.commitMap.read xid) =
      (s.front.read xid <|> s.commitMap.read xid) := by
  simp only [commit_front, commit_commitMap, read_publish, Frame.read_empty, Option.orElse_none]
  split
  · next hm => rw [h.resolve_right (not_not.2 hm), Option.none_orElse]
  · next hm => rw [Frame.read_eq_none_of_not_mem hm, Option.orElse_none]

theorem find_commit (s : Scope α) (xid : String) (climb : Int)
    (h : s.front.read xid = none ∨ xid ∉ s.commitMap) :
    s.commit.find xid climb = s.find xid climb := by
  have key := front_orElse_commit s xid h
  unfold find
  simp only [commit_inner]
  split_ifs
  · cases s.inner <;> simp_all
  · rw [key]
  · exact key

/-- A name bound non-null in the outermost frame and staged: a lookup that reaches the outermost
frame finds the committed value before `commit()` and the staged one after it. -/
theorem find_commit_shadowed (s : Scope α) (xid : String) (climb : Int) {w : α}
    (hw : s.front.read xid = some w) (hm : xid ∈ s.commitMap)
    (hreach : climb < 0 ∨ s.inner = [] ∨ (0 < climb ∧ ∀ m ∈ s.inner, m.read xid = none)) :
    s.find xid climb = some w ∧ s.commit.find xid climb = s.commitMap.read xid := by
  have hpub : (publish s.commitMap s.front).read xid = s.commitMap.read xid := by
    rw [read_publish, if_pos hm]
  rcases hreach with hc | hi | ⟨hc, hnone⟩
  · have h0 : climb ≠ 0 := by omega
    have hpos : ¬ 0 < climb := by omega
    simp [find, h0, hpos, hw, hpub]
  · rw [find_of_inner_nil hi, find_of_inner_nil (show s.commit.inner = [] from hi)]
    simp [hw, hpub]
  · have hs : s.inner.findSome? (·.read xid) = none := List.findSome?_eq_none_iff.2 hnone
    simp [find, hc, hc.ne', hs, hw, hpub]

/-- An `add` leaves what every other name finds. -/
theorem find_add_ne (s : Scope α) {xid y : String} (v : Option α) (climb : Int) (hy : y ≠ xid) :
    (s.add xid v).find y climb = s.find y climb := by
  rcases hi : s.inner with _ | ⟨m, ms⟩
  · rw [add_of_inner_nil hi]
    unfold find; split_ifs <;> simp [hi, Frame.read_insert_ne _ _ hy]
  · rw [add_of_inner_cons hi]
    unfold find; split_ifs <;> simp [hi, Frame.read_insert_ne _ _ hy, List.findSome?_cons]

theorem find_add_self (s : Scope α) (xid : String) (o : α) (climb : Int) :
    (s.add xid (some o)).find xid climb =
      if s.depth = 1 then (s.front.read xid <|> some o)
      else if 0 ≤ climb then some o else s.find xid climb := by
  rcases hi : s.inner with _ | ⟨m, ms⟩
  · rw [add_of_inner_nil hi]
    simp [find_of_inner_nil, depth, hi]
  · rw [add_of_inner_cons hi]
    unfold find
    split_ifs <;> first | omega | simp_all [depth, List.findSome?_cons]

example : ((((Scope.new : Scope Nat).add "x" (some 1)).commit.add "x" (some 2)).lookup "x" 1).1 =
    some 1 := by
  decide

/-! ### Rollback -/

/-- Every call but `commit()` and `reset()` keeps what the outermost frame answers. -/
theorem front_read_step {s t : Scope α} {op : Op α} {r : Result α} (hc : op ≠ .commit)
    (hr : op ≠ .reset) (h : s.step op = some (t, r)) : t.front.read = s.front.read := by
  cases op with
  | push => cases h; rfl
  | pop => obtain ⟨-, rfl, -⟩ := step_pop_eq_some.1 h; rfl
  | reset => exact absurd rfl hr
  | commit => exact absurd rfl hc
  | rollback => obtain ⟨-, rfl, -⟩ := step_rollback_eq_some.1 h; rfl
  | add xid v => cases h; simp
  | lookup xid c => cases h; exact front_read_lookup s xid c
  | getLevel k m => obtain ⟨-, -, rfl, -⟩ := step_getLevel_eq_some.1 h; rfl

theorem live_step {s t : Scope α} {op : Op α} {r : Result α} (hn : op.NonNull) (hs : s.Live)
    (h : s.step op = some (t, r)) : t.Live := by
  cases op with
  | push => cases h; exact hs
  | pop => obtain ⟨-, rfl, -⟩ := step_pop_eq_some.1 h; exact hs
  | reset => cases h; exact hs
  | commit => cases h; simp [Live]
  | rollback => obtain ⟨-, rfl, -⟩ := step_rollback_eq_some.1 h; simp [Live]
  | add xid v =>
    cases h
    obtain _ | o := v
    · exact hn.elim
    rcases hi : s.inner with _ | ⟨m, rest⟩
    · rw [add_of_inner_nil hi]
      intro e he
      simp only [Frame.insert, AList.insert_entries, List.mem_cons] at he
      rcases he with rfl | he
      · rfl
      · exact hs e (List.kerase_sublist _ _ |>.subset he)
    · rw [add_of_inner_cons hi]; exact hs
  | lookup xid c => cases h; simpa [Live] using hs
  | getLevel k m => obtain ⟨-, -, rfl, -⟩ := step_getLevel_eq_some.1 h; exact hs

/-- Since `s₀`: the outermost frame answers as in `s₀` and no pending value is null. -/
structure Kept (s₀ s : Scope α) : Prop where
  front : s.front.read = s₀.front.read
  live : s.Live

theorem Kept.step {s₀ s t : Scope α} {op : Op α} {r : Result α} (h : Kept s₀ s)
    (hop : op.NonNull ∧ op ≠ .commit ∧ op ≠ .reset) (hs : s.step op = some (t, r)) : Kept s₀ t :=
  ⟨(front_read_step hop.2.1 hop.2.2 hs).trans h.front, live_step hop.1 h.live hs⟩

theorem kept_self {s₀ : Scope α} (hc₀ : s₀.commitMap.entries = []) : Kept s₀ s₀ :=
  ⟨rfl, by simp [Live, hc₀]⟩

/-- A scope at depth one that answers in its outermost frame as `s₀` does, `s₀` at depth one with
nothing pending: its rollback succeeds, empties the buffer and restores every lookup of `s₀`. -/
theorem rollback_restores {s₀ t : Scope α} (h₀ : s₀.inner = []) (hc₀ : s₀.commitMap.entries = [])
    (hk : Kept s₀ t) (ht : t.inner = []) :
    ∃ u, t.rollback = some u ∧ u.commitMap.entries = [] ∧
      ∀ xid climb, (u.lookup xid climb).1 = (s₀.lookup xid climb).1 := by
  refine ⟨{ t with commitMap := ∅ }, rollback_eq_some.2 ⟨hk.live, rfl⟩, rfl, fun xid climb => ?_⟩
  have hu : ({ t with commitMap := ∅ } : Scope α).inner = [] := ht
  rw [lookup_fst, lookup_fst, find_of_inner_nil hu, find_of_inner_nil h₀,
    Frame.eq_empty_of_entries hc₀]
  simp [hk.front]

/-- From depth one with nothing pending, a run of calls that stores no null and neither commits
nor resets, back at depth one, then `rollback()`: every lookup answers as before the run. -/
theorem rollback_restores_run {s₀ t : Scope α} {ops : List (Op α)} {rs : List (Result α)}
    (h₀ : s₀.inner = []) (hc₀ : s₀.commitMap.entries = [])
    (hops : ∀ op ∈ ops, op.NonNull ∧ op ≠ .commit ∧ op ≠ .reset)
    (hrun : s₀.run ops = some (t, rs)) (ht : t.inner = []) :
    ∃ u, t.rollback = some u ∧ u.commitMap.entries = [] ∧
      ∀ xid climb, (u.lookup xid climb).1 = (s₀.lookup xid climb).1 :=
  rollback_restores h₀ hc₀
    (runSteps_invariant (Kept s₀) _ (fun hq hs h => hs.step hq h) hops (kept_self hc₀) hrun) ht

/-! ### Reset -/

/-- After `reset()` every lookup finds the pending value and a later `commit()` publishes exactly
the pending buffer; with nothing pending, the scope is a new one for every later run. -/
theorem reset_sees_pending (s : Scope α) :
    (∀ xid climb, (s.reset.lookup xid climb).1 = s.commitMap.read xid) ∧
    (∀ xid, s.reset.commit.front.read xid = s.commitMap.read xid) ∧
    (s.commitMap.entries = [] → ∀ ops, s.reset.run ops = Scope.new.run ops) := by
  refine ⟨fun xid climb => ?_, fun xid => ?_, fun h ops => ?_⟩
  · rw [lookup_fst, find_of_inner_nil rfl]; simp
  · rw [commit_front, read_publish]
    split
    · rfl
    · next hm => exact (Frame.read_eq_none_of_not_mem hm).symm
  · simp [reset, new, Frame.eq_empty_of_entries h]

/-- A binding staged before `reset()` is still found after it, where a new scope finds nothing. -/
theorem reset_keeps_staged :
    ((Scope.new : Scope Nat).run [.add "x" (some 1), .reset, .lookup "x" 1]).map (·.2) =
      some [.done, .done, .value (some 1)] ∧
    ((Scope.new : Scope Nat).run [.lookup "x" 1]).map (·.2) = some [.value none] := by
  decide

end Scope

end ChuckType
