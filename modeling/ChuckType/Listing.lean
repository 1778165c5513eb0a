import ChuckType.Lookup

/-! chuck_type.h | Chuck_Scope::is_mangled · get_toplevel · get_level | listing a level

    `get_level(k)` lists every entry of frame `k` and, for `k == 0`, then every entry of
    `commit_map`, skipping names with `@` unless `includeMangled`. Entries are listed as stored: the
    null entry a lookup of an absent name leaves behind is listed as `NULL`, and a name committed
    and staged again is listed twice, once per map (`getLevel_lists`). What does hold is that every
    value stored at the level is listed and nothing else is, so every non-null binding, and at level
    0 whatever `lookup(x, -1)` finds, is in the list. A lookup's value comes from a frame or from
    `commit_map` (`find_source`), so whatever any lookup finds is listed at some level
    (`lookup_listed`). -/

namespace ChuckType

variable {α : Type}

namespace Scope

/-- The names `get_level` keeps. -/
def Listed (includeMangled : Bool) (xid : String) : Prop :=
  includeMangled = true ∨ isMangled xid = false

theorem mem_listing (m : Frame α) (includeMangled : Bool) (v : Option α) :
    v ∈ listing m includeMangled ↔ ∃ xid, Listed includeMangled xid ∧ m.lookup xid = some v := by
  simp only [listing, List.mem_map, List.mem_filter, Bool.or_eq_true, Bool.not_eq_eq_eq_not,
    Bool.not_true, Listed]
  constructor
  · rintro ⟨⟨xid, w⟩, ⟨he, hk⟩, rfl⟩
    exact ⟨xid, hk, AList.mem_lookup_iff.2 he⟩
  · rintro ⟨xid, hk, hl⟩
    exact ⟨⟨xid, v⟩, ⟨AList.mem_lookup_iff.1 hl, hk⟩, rfl⟩

/-- `get_level` succeeds below the depth and fills `out` with one value for each entry stored at the
level under a kept name (a frame holds one entry per name), then at level 0 one for each entry of
`commit_map` under a kept name, in the maps' order, which the header does not fix. Null
placeholders and a name both committed and staged are entries like any other. At level 0 every
value `lookup(x, -1)` finds is listed. -/
theorem getLevel_lists (s : Scope α) (k : Nat) (m : Frame α) (hk : s.scope[k]? = some m)
    (includeMangled : Bool) :
    ∃ out, s.getLevel k includeMangled = some out ∧
      out.Perm (((m.entries ++ if k = 0 then s.commitMap.entries else []).filter
        fun e => includeMangled || !isMangled e.1).map (·.2)) ∧
      (k = 0 → ∀ xid o, Listed includeMangled xid → (s.lookup xid (-1)).1 = some o →
        some o ∈ out) := by
  refine ⟨listing m includeMangled ++ if k = 0 then listing s.commitMap includeMangled else [],
    by simp [getLevel, hk], by split_ifs <;> simp [listing], fun h0 xid o hx hl => ?_⟩
  subst h0
  have hm : m = s.front := by simpa [scope] using hk.symm
  rw [lookup_fst] at hl
  simp only [find, show (-1 : Int) ≠ 0 by decide, if_false, show ¬ (0 : Int) < -1 by decide] at hl
  rw [if_pos rfl, List.mem_append, mem_listing, mem_listing]
  cases hf : s.front.read xid with
  | some w =>
    rw [hf] at hl; cases hl
    exact .inl ⟨xid, hx, hm ▸ Frame.read_eq_some.1 hf⟩
  | none =>
    rw [hf, Option.none_orElse] at hl
    exact .inr ⟨xid, hx, Frame.read_eq_some.1 hl⟩

/-- A name committed and staged again, and the placeholder of a lookup of a missing name: level 0
lists the committed value, the placeholder and the staged value. -/
theorem getLevel_lists_restaged :
    ((((new : Scope Nat).add "x" (some 1)).commit.add "x" (some 2)).lookup "y" (-1)).2.scope[0]? =
      some ((((new : Scope Nat).add "x" (some 1)).commit.add "x" (some 2)).lookup "y"
        (-1)).2.front ∧
    ∃ out, ((((new : Scope Nat).add "x" (some 1)).commit.add "x" (some 2)).lookup "y"
        (-1)).2.getLevel 0 true = some out ∧
      out.Perm (((((((new : Scope Nat).add "x" (some 1)).commit.add "x" (some 2)).lookup "y"
          (-1)).2.front.entries ++
        if 0 = 0 then ((((new : Scope Nat).add "x" (some 1)).commit.add "x" (some 2)).lookup "y"
          (-1)).2.commitMap.entries else []).filter fun e => true || !isMangled e.1).map (·.2)) ∧
      (0 = 0 → ∀ xid o, Listed true xid →
        (((((new : Scope Nat).add "x" (some 1)).commit.add "x" (some 2)).lookup "y"
          (-1)).2.lookup xid (-1)).1 = some o → some o ∈ out) :=
  ⟨rfl, getLevel_lists ((((new : Scope Nat).add "x" (some 1)).commit.add "x" (some 2)).lookup
    "y" (-1)).2 0 ((((new : Scope Nat).add "x" (some 1)).commit.add "x" (some 2)).lookup
    "y" (-1)).2.front rfl true⟩

example : ((((new : Scope Nat).add "x" (some 1)).commit.add "x" (some 2)).lookup "y"
    (-1)).2.getLevel 0 true = some [none, some 1, some 2] := by
  decide

/-- Where a lookup's value comes from: a frame of the scope, or `commit_map`. -/
theorem find_source {s : Scope α} {xid : String} {climb : Int} {o : α}
    (h : s.find xid climb = some o) :
    (∃ m ∈ s.scope, m.read xid = some o) ∨ s.commitMap.read xid = some o := by
  have hfront : (s.front.read xid <|> s.commitMap.read xid) = some o →
      (∃ m ∈ s.scope, m.read xid = some o) ∨ s.commitMap.read xid = some o := by
    cases hf : s.front.read xid with
    | some w => rintro ⟨⟩; exact .inl ⟨s.front, List.mem_cons_self _ _, hf⟩
    | none => exact .inr
  unfold find at h
  split_ifs at h
  · rcases hi : s.inner with _ | ⟨m, ms⟩ <;> rw [hi] at h
    · exact hfront h
    · exact .inl ⟨m, by simp [scope, hi], h⟩
  · cases hs : s.inner.findSome? (·.read xid) with
    | some w =>
      rw [hs, Option.some_orElse] at h
      cases h
      obtain ⟨m, hm, hr⟩ := List.exists_of_findSome?_eq_some hs
      exact .inl ⟨m, by simp [scope, hm], hr⟩
    | none => rw [hs, Option.none_orElse] at h; exact hfront h
  · exact hfront h

/-- Whatever a lookup finds is listed: every value `lookup(xid, climb)` returns, at any climb, is in
`get_level`'s list for some level below the depth, unless `get_level` skips the name as mangled. -/
theorem lookup_listed (s : Scope α) (xid : String) (climb : Int) (o : α) (includeMangled : Bool)
    (h : (s.lookup xid climb).1 = some o) (hx : Listed includeMangled xid) :
    ∃ k < s.depth, ∃ out, s.getLevel k includeMangled = some out ∧ some o ∈ out := by
  rw [lookup_fst] at h
  rcases find_source h with ⟨m, hm, hr⟩ | hc
  · obtain ⟨k, hk, rfl⟩ := List.getElem_of_mem hm
    refine ⟨k, by simpa [scope, depth] using hk,
      listing s.scope[k] includeMangled ++ if k = 0 then listing s.commitMap includeMangled else [],
      by simp [getLevel, hk], ?_⟩
    exact List.mem_append_left _ ((mem_listing _ _ _).2 ⟨xid, hx, Frame.read_eq_some.1 hr⟩)
  · refine ⟨0, by simp [depth],
      listing s.front includeMangled ++ listing s.commitMap includeMangled,
      by simp [getLevel, scope], ?_⟩
    exact List.mem_append_right _ ((mem_listing _ _ _).2 ⟨xid, hx, Frame.read_eq_some.1 hc⟩)

/-- A value added in a block is found by `lookup(x, 1)` and listed at the block's level. -/
theorem lookup_listed_block :
    (((new : Scope Nat).push.add "x" (some 1)).lookup "x" 1).1 = some 1 ∧ Listed false "x" ∧
    ∃ k < ((new : Scope Nat).push.add "x" (some 1)).depth, ∃ out,
      ((new : Scope Nat).push.add "x" (some 1)).getLevel k false = some out ∧ some 1 ∈ out :=
  have hl : (((new : Scope Nat).push.add "x" (some 1)).lookup "x" 1).1 = some 1 := rfl
  have hx : Listed false "x" := .inr rfl
  ⟨hl, hx, lookup_listed _ _ _ _ _ hl hx⟩

/-- A lookup of an absent name leaves a null entry that `get_level` lists; a name committed and
staged again is listed twice, while `lookup(x, -1)` finds only the committed value. -/
theorem getLevel_lists_placeholders :
    ((new : Scope Nat).run [.lookup "y" (-1), .getLevel 0 true]).map (·.2) =
      some [.value none, .list [none]] ∧
    ((new : Scope Nat).run [.add "x" (some 1), .commit, .add "x" (some 2), .getLevel 0 true,
      .lookup "x" (-1)]).map (·.2) =
      some [.done, .done, .done, .list [some 1, some 2], .value (some 1)] := by
  decide

end Scope

end ChuckType
