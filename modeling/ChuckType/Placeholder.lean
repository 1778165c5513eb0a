import ChuckType.Run

/-! chuck_type.h | Chuck_Scope | `operator[]`'s placeholders are invisible

    Every lookup reads its frames through `std::map::operator[]`, which leaves a null entry behind
    for each name it misses. What a scope holds is its frames with the null entries dropped
    (`Frame.trim`), and `commit_map`, which no lookup writes to. Every call, run on two scopes that
    hold the same, leaves them holding the same and returns the same result, `get_level`'s list
    compared without its nulls (`trim_step`); so does every run (`run_trim_congr`). A lookup only
    adds null entries, so a lookup anywhere in a run changes nothing any later call returns, but for
    the nulls `get_level` lists (`lookup_invisible`). -/

namespace ChuckType

variable {α : Type}

namespace Frame

/-- The entries of a frame that hold an object: the frame with its null entries dropped. -/
def trim (m : Frame α) : List (Sigma fun _ : String => Option α) := m.entries.filter (·.2.isSome)

@[simp] theorem trim_empty : (∅ : Frame α).trim = [] := rfl

theorem mem_trim {m : Frame α} {xid : String} {o : α} :
    ⟨xid, some o⟩ ∈ m.trim ↔ m.read xid = some o := by
  rw [read_eq_some, ← Option.mem_def, AList.mem_lookup_iff]
  simp [trim]

/-- What a frame answers is read off the objects it holds. -/
theorem read_trim (m : Frame α) (xid : String) : m.read xid = (m.trim.dlookup xid).join := by
  refine Option.ext fun o => ?_
  rw [Option.mem_def, Option.mem_def, Option.join_eq_some, ← mem_trim, ← Option.mem_def,
    List.mem_dlookup_iff (show m.trim.NodupKeys from m.nodupKeys.sublist (List.filter_sublist _))]

theorem read_congr {m m' : Frame α} (h : m.trim = m'.trim) : m.read = m'.read :=
  funext fun xid => by rw [read_trim, read_trim, h]

/-- Dropping entries and erasing a key commute on a map's entries. -/
theorem filter_kerase (p : (Sigma fun _ : String => Option α) → Bool) (xid : String) :
    ∀ {l : List (Sigma fun _ : String => Option α)}, l.NodupKeys →
      (l.kerase xid).filter p = (l.filter p).kerase xid
  | [], _ => rfl
  | ⟨k, v⟩ :: l, h => by
    rw [List.nodupKeys_cons] at h
    by_cases hk : xid = k
    · have hl : xid ∉ (l.filter p).keys := fun hm =>
        h.1 (hk ▸ ((List.filter_sublist l).map Sigma.fst).subset hm)
      rw [List.kerase_cons_eq hk, List.filter_cons]
      split
      · rw [List.kerase_cons_eq hk]
      · rw [List.kerase_of_not_mem_keys hl]
    · rw [List.kerase_cons_ne hk, List.filter_cons, List.filter_cons, filter_kerase p xid h.2]
      split
      · rw [List.kerase_cons_ne hk]
      · rfl

theorem trim_insert (m : Frame α) (xid : String) (v : Option α) :
    (m.insert xid v).trim =
      if v.isSome then ⟨xid, v⟩ :: m.trim.kerase xid else m.trim.kerase xid := by
  rw [trim, insert, AList.insert_entries, List.filter_cons, filter_kerase _ _ m.nodupKeys]
  rfl

/-- A null entry `operator[]` leaves is dropped. -/
@[simp] theorem trim_touch (m : Frame α) (xid : String) : (m.touch xid).trim = m.trim := by
  unfold touch
  split
  · rfl
  · next h =>
    rw [trim_insert, Option.isSome_none, if_neg Bool.false_ne_true, List.kerase_of_not_mem_keys]
    exact fun hm => h (AList.mem_keys.1 (((List.filter_sublist _).map Sigma.fst).subset hm))

theorem trim_publish {front front' : Frame α} (pending : Frame α) (h : front.trim = front'.trim) :
    (Scope.publish pending front).trim = (Scope.publish pending front').trim := by
  unfold Scope.publish
  generalize pending.entries = l
  induction l generalizing front front' with
  | nil => exact h
  | cons e l ih => exact ih (by rw [trim_insert, trim_insert, h])

/-- `get_level`'s loop over a frame, its nulls dropped, sees only the objects the frame holds. -/
theorem filter_listing (m : Frame α) (includeMangled : Bool) :
    (Scope.listing m includeMangled).filter (·.isSome) =
      (m.trim.filter fun e => includeMangled || !isMangled e.1).map (·.2) := by
  simp only [Scope.listing, trim, List.filter_map, List.filter_filter]
  congr 1
  exact List.filter_congr fun e _ => by simp [Function.comp_def, Bool.and_comm]

end Frame

/-- A call's result with the nulls of a `get_level` list dropped. -/
def Result.trim : Result α → Result α
  | .list out => .list (out.filter (·.isSome))
  | r => r

namespace Scope

/-- What a scope holds: its frames without null entries, and `commit_map` whole (its null entries
are what `commit()` writes and `rollback()` fails on). -/
def trim (s : Scope α) :
    List (Sigma fun _ : String => Option α) × List (List (Sigma fun _ : String => Option α)) ×
      Frame α :=
  (s.front.trim, s.inner.map Frame.trim, s.commitMap)

theorem view_congr {s t : Scope α} (h : s.trim = t.trim) : s.view = t.view := by
  simp only [trim, view, Prod.mk.injEq] at h ⊢
  refine ⟨Frame.read_congr h.1, ?_, h.2.2⟩
  have hr : (Frame.read : Frame α → _) = (fun l xid => (l.dlookup xid).join) ∘ Frame.trim :=
    funext fun m => funext (Frame.read_trim m)
  rw [hr, ← List.map_map, ← List.map_map, h.2.1]

theorem trim_lookup (s : Scope α) (xid : String) (climb : Int) :
    (s.lookup xid climb).2.trim = s.trim := by
  obtain ⟨hf, hi, hc⟩ := lookup_frames Frame.trim Frame.trim_touch s xid climb
  simp only [trim, hf, hi, hc]

/-- `get_level`'s list without its nulls depends only on what the scope holds. -/
theorem getLevel_congr {s t : Scope α} (h : s.trim = t.trim) (k : Nat) (includeMangled : Bool) :
    (s.getLevel k includeMangled).map (·.filter (·.isSome)) =
      (t.getLevel k includeMangled).map (·.filter (·.isSome)) := by
  obtain ⟨hf, hi, hc⟩ := Prod.mk.inj_iff.1 h |>.imp_right Prod.mk.inj_iff.1
  have hscope := congrArg (·[k]?) (show s.scope.map Frame.trim = t.scope.map Frame.trim by
    simp only [scope, List.map_cons, List.map_reverse, hf, hi])
  simp only [List.getElem?_map] at hscope
  simp only [getLevel, Option.map_map, Function.comp_def, List.filter_append,
    Frame.filter_listing, hc]
  simpa only [Option.map_map, Function.comp_def] using congrArg (Option.map fun l =>
    (l.filter fun e => includeMangled || !isMangled e.1).map (·.2) ++
      (if k = 0 then listing t.commitMap includeMangled else []).filter (·.isSome)) hscope

/-- Every call on two scopes that hold the same leaves them holding the same and returns the same,
`get_level`'s list compared without its nulls. -/
theorem trim_step {s t : Scope α} (h : s.trim = t.trim) (op : Op α) :
    (s.step op).map (Prod.map trim Result.trim) = (t.step op).map (Prod.map trim Result.trim) := by
  obtain ⟨hf, hi, hc⟩ := Prod.mk.inj_iff.1 h |>.imp_right Prod.mk.inj_iff.1
  cases op with
  | push => simp [step, trim, hf, hi, hc]
  | pop =>
    rcases map_eq_map_cases hi with ⟨hs, ht⟩ | ⟨m, ms, m', ms', hs, ht, -, hms⟩
    · simp [step, pop, hs, ht]
    · simp [step, pop, hs, ht, trim, hf, hc, hms, Result.trim]
  | reset => simp [step, trim, hc]
  | commit =>
    simp only [step, Option.map_some', Prod.map, trim, commit_front, commit_inner,
      commit_commitMap, hc, hi, Frame.trim_publish t.commitMap hf]
  | rollback =>
    simp only [step, rollback, hc]
    split <;> simp [trim, hf, hi, Result.trim]
  | add xid v =>
    rcases map_eq_map_cases hi with ⟨hs, ht⟩ | ⟨m, ms, m', ms', hs, ht, hm, hms⟩
    · simp [step, add_of_inner_nil hs, add_of_inner_nil ht, trim, hf, hc, hi, Result.trim]
    · simp [step, add_of_inner_cons hs, add_of_inner_cons ht, trim, hf, hc, hms, Result.trim,
        Frame.trim_insert, hm]
  | lookup xid c =>
    simp [step, trim_lookup, h, lookup_fst, find_congr (view_congr h), Result.trim]
  | getLevel k b =>
    simpa only [step, Option.map_map, Function.comp_def, Prod.map, Result.trim, h] using
      congrArg (Option.map fun l => (t.trim, Result.list l)) (getLevel_congr h k b)

/-- Two scopes that hold the same run every sequence of calls alike: both fail, or both succeed
holding the same and returning the same results, `get_level`'s lists compared without their
nulls. -/
theorem run_trim_congr {s t : Scope α} (h : s.trim = t.trim) (ops : List (Op α)) :
    (s.run ops).map (Prod.map trim (List.map Result.trim)) =
      (t.run ops).map (Prod.map trim (List.map Result.trim)) :=
  runSteps_map_congr trim Result.trim (fun op h => trim_step h op) ops h

/-- A lookup changes nothing a later call returns: after `lookup(xid, climb)` every sequence of
calls fails or succeeds as it would have without it, with the same results, but for the null
entries `get_level` lists. -/
theorem lookup_invisible (s : Scope α) (xid : String) (climb : Int) (ops : List (Op α)) :
    ((s.lookup xid climb).2.run ops).map (·.2.map Result.trim) =
      (s.run ops).map (·.2.map Result.trim) := by
  simpa only [Option.map_map, Function.comp_def, Prod.map_snd] using
    congrArg (Option.map Prod.snd) (run_trim_congr (trim_lookup s xid climb) ops)

end Scope

end ChuckType
