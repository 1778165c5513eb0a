import Mathlib.Data.List.AList

/-! chuck_type.h | Chuck_Scope frames | std::map<S_Symbol, Chuck_VM_Object *>

    One frame of a `Chuck_Scope` is a `std::map` from interned symbols to object pointers. A symbol
    is an interned name, so a key is the name itself; a value is a possibly null pointer (`none` is
    `NULL`). `std::map::operator[]` both reads and, on a missing key, inserts a null entry: `read`
    is what it returns and `touch` is what it leaves behind. The null entries it leaves are
    invisible to every later read (`read_touch`): what a frame answers is the function `read`, and
    two frames with the same `read` are as good as one another for every lookup. -/

namespace ChuckType

/-- A `std::map<S_Symbol, Chuck_VM_Object *>`: keys are symbol names, values possibly null. -/
abbrev Frame (α : Type) := AList (fun _ : String => Option α)

variable {α : Type}

namespace Frame

/-- The assignment `(*m)[xid] = v`. -/
def insert (m : Frame α) (xid : String) (v : Option α) : Frame α := AList.insert xid v m

/-- The pointer `(*m)[xid]` returns: the stored value, or `NULL` for a missing key. -/
def read (m : Frame α) (xid : String) : Option α := (m.lookup xid).join

/-- The map `(*m)[xid]` leaves behind: a missing key gets a null entry. -/
def touch (m : Frame α) (xid : String) : Frame α := if xid ∈ m then m else m.insert xid none

@[simp] theorem read_empty (xid : String) : (∅ : Frame α).read xid = none := rfl

@[simp] theorem read_insert_self (m : Frame α) (xid : String) (v : Option α) :
    (m.insert xid v).read xid = v := by
  simp [read, insert]

@[simp] theorem read_insert_ne (m : Frame α) {xid y : String} (v : Option α) (h : y ≠ xid) :
    (m.insert xid v).read y = m.read y := by
  simp [read, insert, h]

theorem read_insert (m : Frame α) (xid y : String) (v : Option α) :
    (m.insert xid v).read y = if y = xid then v else m.read y := by
  split <;> simp_all

theorem read_eq_some {m : Frame α} {xid : String} {o : α} :
    m.read xid = some o ↔ m.lookup xid = some (some o) := by
  unfold read; cases m.lookup xid <;> simp

theorem eq_empty_of_entries {m : Frame α} (h : m.entries = []) : m = ∅ := AList.ext h

theorem read_eq_none_of_not_mem {m : Frame α} {xid : String} (h : xid ∉ m) : m.read xid = none := by
  simp [read, AList.lookup_eq_none.2 h]

/-- A read through `operator[]` leaves nothing any later read can see. -/
@[simp] theorem read_touch (m : Frame α) (xid y : String) : (m.touch xid).read y = m.read y := by
  unfold touch
  split
  · rfl
  · rw [read_insert]
    split
    · subst y; simp [read_eq_none_of_not_mem ‹_›]
    · rfl

/-- The reads of a frame after `operator[]` are those before. -/
@[simp] theorem read_comp_touch (m : Frame α) (xid : String) : (m.touch xid).read = m.read :=
  funext (read_touch m xid)

end Frame

/-- `Chuck_Scope::is_mangled`: the name contains `@`, which no name of the language can. -/
def isMangled (name : String) : Bool := name.toList.contains '@'

example : isMangled "toString@0@Object" = true := by decide

end ChuckType
