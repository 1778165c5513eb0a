import ChuckType.Placeholder

/-! chuck_type.h | Chuck_Scope::push · pop · add · lookup | block scoping never leaks

    A block is `push()`, any calls that stay above the depth it started at (no `commit()`,
    `rollback()` or `reset()`), and the `pop()` back. While inside, `add` writes only into frames
    the block pushed (`scope.back()` is never `scope.front()` there), and a lookup touches the
    frames below only with null entries. `AboveBy f s u` says `u` is `s` with frames pushed on top:
    its outermost frame and bottom frames are `s`'s as `f` sees them, and `commit_map` is `s`'s.
    Every call keeps it when a touch keeps `f` (`AboveBy.step`). With `f = Frame.trim`, the final
    `pop()` gives back a scope holding what `s` held (`block_trim`); so it answers every lookup as
    `s` (`block_restores`), and no later call of any kind can tell the block ran
    (`block_invisible`). -/

namespace ChuckType

variable {α : Type}

namespace Scope

theorem drop_cons_sub {β : Type} (m : β) (l : List β) {n : Nat} (h : n ≤ l.length) :
    (m :: l).drop ((m :: l).length - n) = l.drop (l.length - n) := by
  rw [List.length_cons, Nat.succ_sub h, List.drop_succ_cons]

/-- `u` is `s` with frames pushed on top: `u`'s outermost frame and bottom frames are `s`'s as `f`
sees them, and the buffer is `s`'s. -/
structure AboveBy {β : Type} (f : Frame α → β) (s u : Scope α) : Prop where
  deeper : s.inner.length < u.inner.length
  front : f u.front = f s.front
  base : (u.inner.drop (u.inner.length - s.inner.length)).map f = s.inner.map f
  commitMap : u.commitMap = s.commitMap

section AboveBy

variable {β : Type} {f : Frame α → β} (hf : ∀ m xid, f (m.touch xid) = f m)
include hf

/-- A call above the block's base keeps what `f` sees of the frames below, when a touch keeps
it. -/
theorem AboveBy.step {s u t : Scope α} {op : Op α} {r : Result α} (hu : AboveBy f s u)
    (hop : op ≠ .commit ∧ op ≠ .rollback ∧ op ≠ .reset) (h : u.step op = some (t, r))
    (ht : s.depth < t.depth) : AboveBy f s t := by
  have hd : s.inner.length < t.inner.length := by simpa [depth] using ht
  obtain ⟨hlen, hfront, hbase, hc⟩ := hu
  obtain ⟨m, rest, hi⟩ := List.exists_cons_of_length_pos (Nat.zero_lt_of_lt hlen)
  cases op with
  | push =>
    cases h
    exact ⟨hd, hfront, by simpa only [push_inner, drop_cons_sub _ _ hlen.le] using hbase, hc⟩
  | pop =>
    obtain ⟨-, rfl, -⟩ := step_pop_eq_some.1 h
    simp only [hi, List.tail_cons] at hd ⊢
    refine ⟨hd, hfront, ?_, hc⟩
    rwa [hi, drop_cons_sub _ _ hd.le] at hbase
  | reset => exact absurd rfl hop.2.2
  | commit => exact absurd rfl hop.1
  | rollback => exact absurd rfl hop.2.1
  | add xid v =>
    cases h
    rw [hi, List.length_cons] at hlen
    rw [hi, drop_cons_sub _ _ (Nat.le_of_lt_succ hlen)] at hbase
    rw [add_of_inner_cons hi] at hd ⊢
    exact ⟨hd, hfront, by rwa [drop_cons_sub _ _ (Nat.le_of_lt_succ hlen)], hc⟩
  | lookup xid c =>
    cases h
    obtain ⟨hf', hi', hc'⟩ := lookup_frames f hf u xid c
    refine ⟨hd, hf'.trans hfront, ?_, hc'.trans hc⟩
    have hl := congrArg List.length hi'
    simp only [List.length_map] at hl
    rw [List.map_drop, hi', hl, ← List.map_drop, hbase]
  | getLevel k m =>
    obtain ⟨-, -, rfl, -⟩ := step_getLevel_eq_some.1 h
    exact ⟨hd, hfront, hbase, hc⟩

theorem aboveBy_run {s : Scope α} :
    ∀ {ops : List (Op α)} {u t : Scope α} {ts : List (Result α)}, AboveBy f s u →
      (∀ op ∈ ops, op ≠ .commit ∧ op ≠ .rollback ∧ op ≠ .reset) →
      (∀ k v vs, u.run (ops.take k) = some (v, vs) → s.depth < v.depth) →
      u.run ops = some (t, ts) → AboveBy f s t
  | [], _, _, _, hu, _, _, h => by cases h; exact hu
  | op :: ops, u, t, ts, hu, hops, hdepth, h => by
    obtain ⟨u₁, r, ts', h₁, h₂, -⟩ := run_cons_eq_some.1 h
    have hd₁ : s.depth < u₁.depth := hdepth 1 u₁ [r] (by simp [run_cons, h₁])
    refine aboveBy_run (hu.step hf (hops op (List.mem_cons_self _ _)) h₁ hd₁)
      (fun o ho => hops o (List.mem_cons_of_mem _ ho)) (fun k v vs hk => ?_) h₂
    exact hdepth (k + 1) v (r :: vs) (by simp [run_cons, h₁, hk])

end AboveBy

/-- After a block the scope holds what it held before: the `pop()` removes the last frame the
block pushed, and below it every frame holds what it held. -/
theorem block_trim (s : Scope α) (ops : List (Op α)) (u : Scope α) (rs : List (Result α))
    (hops : ∀ op ∈ ops, op ≠ .commit ∧ op ≠ .rollback ∧ op ≠ .reset)
    (hrun : s.run (.push :: ops ++ [.pop]) = some (u, rs))
    (habove : ∀ k v vs, s.run (.push :: ops.take k) = some (v, vs) → s.depth < v.depth)
    (hd : u.depth = s.depth) : u.trim = s.trim := by
  obtain ⟨t, ts, us, ht, hlast, -⟩ := run_append_eq_some.1 hrun
  obtain ⟨s₁, r, ts', h₁, h₂, -⟩ := run_cons_eq_some.1 ht
  cases h₁
  obtain ⟨t', r', us', hstep, hnil, -⟩ := run_cons_eq_some.1 hlast
  rw [run_nil] at hnil
  cases hnil
  have hbase : AboveBy Frame.trim s s.push := ⟨by simp, rfl, by simp, rfl⟩
  have hab := aboveBy_run Frame.trim_touch hbase hops
    (fun k v vs hk => habove k v (.done :: vs) (by simp [run_cons, step, hk])) h₂
  obtain ⟨hne, rfl, -⟩ := step_pop_eq_some.1 hstep
  have hlen : t.inner.length = s.inner.length + 1 := by
    have := List.length_pos.2 hne
    simp only [depth, List.length_tail] at hd
    omega
  have hb := hab.base
  rw [hlen, Nat.add_sub_cancel_left, List.drop_one] at hb
  simp only [trim, hab.front, hb, hab.commitMap]

/-- Block scoping never leaks: `push()`, calls that stay above depth `s.depth` and do not commit,
roll back or reset, and a `pop()` back to `s.depth` give a scope answering every lookup as `s`. -/
theorem block_restores (s : Scope α) (ops : List (Op α)) (u : Scope α) (rs : List (Result α))
    (hops : ∀ op ∈ ops, op ≠ .commit ∧ op ≠ .rollback ∧ op ≠ .reset)
    (hrun : s.run (.push :: ops ++ [.pop]) = some (u, rs))
    (habove : ∀ k v vs, s.run (.push :: ops.take k) = some (v, vs) → s.depth < v.depth)
    (hd : u.depth = s.depth) :
    ∀ xid climb, (u.lookup xid climb).1 = (s.lookup xid climb).1 := by
  intro xid climb
  rw [lookup_fst, lookup_fst]
  exact find_congr (view_congr (block_trim s ops u rs hops hrun habove hd)) xid climb

/-- A block shadowing a staged name: after the `pop()` the scope is the one before the block. -/
theorem block_restores_shadowed :
    ((new : Scope Nat).add "x" (some 1)).run
      (.push :: [.add "x" (some 2), .lookup "x" 1] ++ [.pop]) =
      some ((new : Scope Nat).add "x" (some 1), [.done, .done, .value (some 2), .done]) ∧
    ∀ xid climb, ((((new : Scope Nat).add "x" (some 1)).lookup xid climb).1 =
      (((new : Scope Nat).add "x" (some 1)).lookup xid climb).1) :=
  ⟨rfl, block_restores _ [.add "x" (some 2), .lookup "x" 1] _ _ (by simp) rfl
    (fun k v vs h => by
      rcases k with _ | _ | k <;>
        simp only [List.take_succ_cons, List.take_zero, List.take_nil] at h
      all_goals cases h; decide)
    rfl⟩

/-- A block leaves no trace: after `push()`, calls that stay above depth `s.depth` and do not
commit, roll back or reset, and a `pop()` back to `s.depth`, the scope holds what `s` held (up to
the placeholders of `operator[]`), so every later sequence of calls runs as it would have after
`s`. -/
theorem block_invisible (s : Scope α) (ops : List (Op α)) (u : Scope α) (rs : List (Result α))
    (hops : ∀ op ∈ ops, op ≠ .commit ∧ op ≠ .rollback ∧ op ≠ .reset)
    (hrun : s.run (.push :: ops ++ [.pop]) = some (u, rs))
    (habove : ∀ k v vs, s.run (.push :: ops.take k) = some (v, vs) → s.depth < v.depth)
    (hd : u.depth = s.depth) :
    u.trim = s.trim ∧ ∀ later : List (Op α),
      (u.run later).map (Prod.map trim (List.map Result.trim)) =
        (s.run later).map (Prod.map trim (List.map Result.trim)) := by
  have h := block_trim s ops u rs hops hrun habove hd
  exact ⟨h, fun later => run_trim_congr h later⟩

/-- A block whose lookup of a missing name leaves a placeholder in the outermost frame: the scope
after it is `s` with that placeholder, and holds what `s` holds. -/
theorem block_invisible_placeholder :
    ((new : Scope Nat).add "x" (some 1)).run
        (.push :: [.add "x" (some 2), .lookup "y" 1] ++ [.pop]) =
      some ((((new : Scope Nat).add "x" (some 1)).lookup "y" (-1)).2,
        [.done, .done, .value none, .done]) ∧
    (((new : Scope Nat).add "x" (some 1)).lookup "y" (-1)).2.trim =
        ((new : Scope Nat).add "x" (some 1)).trim ∧
      ∀ later : List (Op Nat),
        ((((new : Scope Nat).add "x" (some 1)).lookup "y" (-1)).2.run later).map
            (Prod.map trim (List.map Result.trim)) =
          (((new : Scope Nat).add "x" (some 1)).run later).map
            (Prod.map trim (List.map Result.trim)) :=
  ⟨rfl, block_invisible _ [.add "x" (some 2), .lookup "y" 1] _ _ (by simp) rfl
    (fun k v vs h => by
      rcases k with _ | _ | k <;>
        simp only [List.take_succ_cons, List.take_zero, List.take_nil] at h
      all_goals cases h; decide)
    rfl⟩

end Scope

end ChuckType
