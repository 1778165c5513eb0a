import ChuckType.Lookup

/-! chuck_type.h | Chuck_Scope | runs of calls

    What each call can do, said once (`step_pop_eq_some`, `step_rollback_eq_some`,
    `step_getLevel_eq_some`, the `add` equations), and
    the one induction over runs the later laws are built on: a property every allowed call keeps
    holds after every run of allowed calls (`runSteps_invariant`), for a scope as for a
    namespace. -/

namespace ChuckType

variable {α : Type}

theorem runSteps_cons_eq_some {σ ι ρ : Type} {step : σ → ι → Option (σ × ρ)} {s u : σ} {op : ι}
    {ops : List ι} {rs : List ρ} :
    runSteps step s (op :: ops) = some (u, rs) ↔
      ∃ t r rs', step s op = some (t, r) ∧ runSteps step t ops = some (u, rs') ∧ rs = r :: rs' := by
  simp only [runSteps]
  constructor
  · intro h
    split at h
    · cases h
    · next t r hs =>
      obtain ⟨⟨u', rs'⟩, h₁, h₂⟩ := Option.map_eq_some'.1 h
      cases h₂
      exact ⟨t, r, rs', hs, h₁, rfl⟩
  · rintro ⟨t, r, rs', h₁, h₂, rfl⟩
    simp [h₁, h₂]

/-- A property that every call allowed by `Q` keeps holds after every run of such calls. -/
theorem runSteps_invariant {σ ι ρ : Type} {step : σ → ι → Option (σ × ρ)} (P : σ → Prop)
    (Q : ι → Prop) (step_P : ∀ {s op t r}, Q op → P s → step s op = some (t, r) → P t) :
    ∀ {ops : List ι} {s t : σ} {rs : List ρ},
      (∀ op ∈ ops, Q op) → P s → runSteps step s ops = some (t, rs) → P t
  | [], _, _, _, _, hs, h => by cases h; exact hs
  | op :: ops, s, t, rs, hq, hs, h => by
    obtain ⟨t', r, rs', h1, h2, -⟩ := runSteps_cons_eq_some.1 h
    exact runSteps_invariant P Q step_P (fun o ho => hq o (List.mem_cons_of_mem _ ho))
      (step_P (hq op (List.mem_cons_self _ _)) hs h1) h2

/-- If what `f` sees of the state after a call, and what `g` sees of its result, depend only on
what `f` sees before it, then the same holds of every run. -/
theorem runSteps_map_congr {σ ι ρ κ ρ' : Type} {step : σ → ι → Option (σ × ρ)} (f : σ → κ)
    (g : ρ → ρ') (hstep : ∀ {s t : σ} (op : ι), f s = f t →
      (step s op).map (Prod.map f g) = (step t op).map (Prod.map f g)) :
    ∀ (ops : List ι) {s t : σ}, f s = f t →
      (runSteps step s ops).map (Prod.map f (List.map g)) =
        (runSteps step t ops).map (Prod.map f (List.map g))
  | [], s, t, h => by simp [runSteps, h]
  | op :: ops, s, t, h => by
    have hop := hstep op h
    have hcons : ∀ (x : Option (σ × List ρ)) (r : ρ),
        (x.map fun p => (p.1, r :: p.2)).map (Prod.map f (List.map g)) =
          (x.map (Prod.map f (List.map g))).map fun q => (q.1, g r :: q.2) := by
      intro x r; cases x <;> rfl
    simp only [runSteps]
    rcases hs : step s op with _ | ⟨s', r⟩ <;> rcases ht : step t op with _ | ⟨t', r'⟩ <;>
      simp only [hs, ht, Option.map_none', Option.map_some', Prod.map, reduceCtorEq,
        Option.some.injEq, Prod.mk.injEq] at hop ⊢
    rw [hcons, hcons, runSteps_map_congr f g hstep ops hop.1, hop.2]

/-- Two lists that agree under `f` and `g` are both empty, or both have a head, the heads and the
tails agreeing. -/
theorem map_eq_map_cases {β γ δ : Type} {f : β → δ} {g : γ → δ} {l : List β} {l' : List γ}
    (h : l.map f = l'.map g) :
    (l = [] ∧ l' = []) ∨
      ∃ a as b bs, l = a :: as ∧ l' = b :: bs ∧ f a = g b ∧ as.map f = bs.map g := by
  cases l with
  | nil => exact .inl ⟨rfl, List.map_eq_nil_iff.1 h.symm⟩
  | cons a as =>
    obtain ⟨b, bs, rfl, hab, hbs⟩ := List.map_eq_cons_iff.1 h.symm
    exact .inr ⟨a, as, b, bs, rfl, rfl, hab.symm, hbs.symm⟩

namespace Scope

@[simp] theorem depth_push (s : Scope α) : s.push.depth = s.depth + 1 := by
  simp [depth]

theorem pop_eq_some {s t : Scope α} :
    s.pop = some t ↔ s.inner ≠ [] ∧ { s with inner := s.inner.tail } = t := by
  rcases s with ⟨f, _ | ⟨m, rest⟩, c⟩ <;> simp [pop]

theorem rollback_eq_some {s t : Scope α} :
    s.rollback = some t ↔
      (∀ e ∈ s.commitMap.entries, e.2.isSome) ∧ { s with commitMap := ∅ } = t := by
  unfold rollback
  split <;> simp_all [List.all_eq_true]

@[simp] theorem add_front (s : Scope α) (xid : String) (v : Option α) :
    (s.add xid v).front = s.front := by
  unfold add; split <;> rfl

theorem add_of_inner_nil {s : Scope α} (h : s.inner = []) (xid : String) (v : Option α) :
    s.add xid v = { s with commitMap := s.commitMap.insert xid v } := by
  simp [add, h]

theorem add_of_inner_cons {s : Scope α} {m : Frame α} {rest : List (Frame α)}
    (h : s.inner = m :: rest) (xid : String) (v : Option α) :
    s.add xid v = { s with inner := m.insert xid v :: rest } := by
  simp [add, h]

/-! ### The calls that can fail -/

theorem step_pop_eq_some {s t : Scope α} {r : Result α} :
    s.step .pop = some (t, r) ↔
      s.inner ≠ [] ∧ t = { s with inner := s.inner.tail } ∧ r = .done := by
  simp only [step, Option.map_eq_some', pop_eq_some, Prod.mk.injEq]
  constructor
  · rintro ⟨_, ⟨hne, rfl⟩, rfl, rfl⟩; exact ⟨hne, rfl, rfl⟩
  · rintro ⟨hne, rfl, rfl⟩; exact ⟨_, ⟨hne, rfl⟩, rfl, rfl⟩

theorem step_rollback_eq_some {s t : Scope α} {r : Result α} :
    s.step .rollback = some (t, r) ↔
      (∀ e ∈ s.commitMap.entries, e.2.isSome) ∧ t = { s with commitMap := ∅ } ∧ r = .done := by
  simp only [step, Option.map_eq_some', rollback_eq_some, Prod.mk.injEq]
  constructor
  · rintro ⟨_, ⟨hl, rfl⟩, rfl, rfl⟩; exact ⟨hl, rfl, rfl⟩
  · rintro ⟨hl, rfl, rfl⟩; exact ⟨_, ⟨hl, rfl⟩, rfl, rfl⟩

theorem step_getLevel_eq_some {s t : Scope α} {k : Nat} {m : Bool} {r : Result α} :
    s.step (.getLevel k m) = some (t, r) ↔
      ∃ out, s.getLevel k m = some out ∧ t = s ∧ r = .list out := by
  simp only [step, Option.map_eq_some', Prod.mk.injEq]
  constructor
  · rintro ⟨out, h, rfl, rfl⟩; exact ⟨out, h, rfl, rfl⟩
  · rintro ⟨out, h, rfl, rfl⟩; exact ⟨out, h, rfl, rfl⟩

@[simp] theorem run_nil (s : Scope α) : s.run [] = some (s, []) := rfl

theorem run_cons (s : Scope α) (op : Op α) (ops : List (Op α)) :
    s.run (op :: ops) = (s.step op).bind fun p => (p.1.run ops).map fun q => (q.1, p.2 :: q.2) := by
  simp only [run, runSteps]; split <;> simp_all

theorem run_cons_eq_some {s u : Scope α} {op : Op α} {ops : List (Op α)} {rs : List (Result α)} :
    s.run (op :: ops) = some (u, rs) ↔
      ∃ t r rs', s.step op = some (t, r) ∧ t.run ops = some (u, rs') ∧ rs = r :: rs' :=
  runSteps_cons_eq_some

theorem run_append (s : Scope α) (l₁ l₂ : List (Op α)) :
    s.run (l₁ ++ l₂) =
      (s.run l₁).bind fun p => (p.1.run l₂).map fun q => (q.1, p.2 ++ q.2) := by
  induction l₁ generalizing s with
  | nil => simp [run, runSteps]
  | cons op ops ih =>
    rw [List.cons_append, run_cons, run_cons, Option.bind_assoc]
    congr 1; funext p
    rw [ih]; cases p.1.run ops <;> simp [Option.map_map, Function.comp_def]

theorem run_append_eq_some {s u : Scope α} {l₁ l₂ : List (Op α)} {rs : List (Result α)} :
    s.run (l₁ ++ l₂) = some (u, rs) ↔
      ∃ t ts us, s.run l₁ = some (t, ts) ∧ t.run l₂ = some (u, us) ∧ rs = ts ++ us := by
  rw [run_append]
  constructor
  · intro h
    obtain ⟨⟨t, ts⟩, h₁, h₂⟩ := Option.bind_eq_some.1 h
    obtain ⟨⟨u', us⟩, h₃, h₄⟩ := Option.map_eq_some'.1 h₂
    cases h₄
    exact ⟨t, ts, us, h₁, h₃, rfl⟩
  · rintro ⟨t, ts, us, h₁, h₂, rfl⟩
    simp [h₁, h₂]

end Scope

end ChuckType
