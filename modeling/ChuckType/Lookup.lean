import ChuckType.Scope

/-! chuck_type.h | Chuck_Scope::lookup | what a lookup finds

    `find` is what `lookup(xid, climb)` returns, read off the frames: for `climb > 0` the innermost
    non-null value, then `commit_map`; for `climb == 0` the innermost frame, with `commit_map` only
    at depth one; for `climb < 0` the outermost frame, then `commit_map`. `view` is what a scope
    answers to reads: each frame's `read` and the pending buffer. A lookup changes its frames only
    through `operator[]` (`lookup_frames`), so it keeps the view (`view_lookup`), and `find`
    depends on the view alone (`find_congr`): no lookup changes what a later lookup finds. -/

namespace ChuckType

variable {α : Type}

namespace Scope

/-- What `lookup(xid, climb)` returns, read off the frames without `operator[]`'s insertions. -/
def find (s : Scope α) (xid : String) (climb : Int) : Option α :=
  if climb = 0 then
    match s.inner with
    | [] => s.front.read xid <|> s.commitMap.read xid
    | m :: _ => m.read xid
  else if 0 < climb then
    s.inner.findSome? (·.read xid) <|> s.front.read xid <|> s.commitMap.read xid
  else s.front.read xid <|> s.commitMap.read xid

/-- What a scope answers to reads: the outermost frame's reads, those of the frames above it
(innermost first), and the pending buffer. -/
def view (s : Scope α) : (String → Option α) × List (String → Option α) × Frame α :=
  (s.front.read, s.inner.map Frame.read, s.commitMap)

theorem search_fst (ms : List (Frame α)) (xid : String) :
    (search ms xid).1 = ms.findSome? (·.read xid) := by
  induction ms with
  | nil => rfl
  | cons m ms ih => cases h : m.read xid <;> simp [search, h, ih, List.findSome?_cons]

/-- The frames `search` leaves are, to anything a touch keeps, the frames it was given. -/
theorem search_map {β : Type} (f : Frame α → β) (hf : ∀ m xid, f (m.touch xid) = f m)
    (ms : List (Frame α)) (xid : String) : (search ms xid).2.map f = ms.map f := by
  induction ms with
  | nil => rfl
  | cons m ms ih => cases h : m.read xid <;> simp [search, h, ih, hf]

theorem lookupFront_fst (s : Scope α) (xid : String) :
    (s.lookupFront xid).1 = (s.front.read xid <|> s.commitMap.read xid) := rfl

/-- `lookup` returns `find`. -/
theorem lookup_fst (s : Scope α) (xid : String) (climb : Int) :
    (s.lookup xid climb).1 = s.find xid climb := by
  unfold lookup find
  split
  · unfold lookupBack; cases s.inner <;> rfl
  split
  · unfold lookupClimb
    rcases h : search s.inner xid with ⟨_ | v, inner⟩ <;>
      simp [lookupFront_fst, ← search_fst, h]
  · rfl

/-- A lookup changes its scope only through `operator[]`: whatever a touch keeps of a frame, it
keeps of every frame, and `commit_map` is left as it is. -/
theorem lookup_frames {β : Type} (f : Frame α → β) (hf : ∀ m xid, f (m.touch xid) = f m)
    (s : Scope α) (xid : String) (climb : Int) :
    f (s.lookup xid climb).2.front = f s.front ∧
      (s.lookup xid climb).2.inner.map f = s.inner.map f ∧
      (s.lookup xid climb).2.commitMap = s.commitMap := by
  unfold lookup
  split
  · unfold lookupBack
    rcases s with ⟨front, _ | ⟨m, rest⟩, pending⟩ <;> simp [lookupFront, hf]
  split
  · unfold lookupClimb
    have hs := search_map f hf s.inner xid
    rcases h : search s.inner xid with ⟨_ | v, inner⟩ <;> rw [h] at hs <;>
      simp [lookupFront, hf, hs]
  · simp [lookupFront, hf]

/-- A lookup changes no read of any frame. -/
theorem view_lookup (s : Scope α) (xid : String) (climb : Int) :
    (s.lookup xid climb).2.view = s.view := by
  obtain ⟨hf, hi, hc⟩ := lookup_frames Frame.read Frame.read_comp_touch s xid climb
  simp only [view, hf, hi, hc]

@[simp] theorem commitMap_lookup (s : Scope α) (xid : String) (climb : Int) :
    (s.lookup xid climb).2.commitMap = s.commitMap :=
  congrArg (·.2.2) (view_lookup s xid climb)

theorem front_read_lookup (s : Scope α) (xid : String) (climb : Int) :
    (s.lookup xid climb).2.front.read = s.front.read :=
  congrArg Prod.fst (view_lookup s xid climb)

/-- `find` sees a scope only through its view. -/
theorem find_congr {s t : Scope α} (h : s.view = t.view) (xid : String) (climb : Int) :
    s.find xid climb = t.find xid climb := by
  simp only [view, Prod.mk.injEq] at h
  obtain ⟨hf, hi, hc⟩ := h
  have hfind : s.inner.findSome? (·.read xid) = t.inner.findSome? (·.read xid) := by
    have := congrArg (List.findSome? (fun r => r xid)) hi
    simpa [List.findSome?_map] using this
  unfold find
  rcases hs : s.inner with _ | ⟨m, ms⟩ <;> rcases ht : t.inner with _ | ⟨m', ms'⟩ <;>
    simp_all [hf]

/-- No lookup changes what any later lookup returns. -/
theorem lookup_lookup (s : Scope α) (xid : String) (climb : Int) (y : String) (c : Int) :
    ((s.lookup xid climb).2.lookup y c).1 = (s.lookup y c).1 := by
  rw [lookup_fst, lookup_fst, find_congr (view_lookup s xid climb)]

end Scope

end ChuckType
