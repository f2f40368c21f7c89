/-
  CapacityControl.Proofs.Result
  ─────────────────────────────
  STEPS THAT MAY FAIL.  A chain of checked steps succeeds exactly if each step does, and
  fails with its first failure.  The equivalences below take such a chain apart without
  opening the steps themselves.
-/
import CapacityControl.Requirement

namespace CapacityControl

variable {β γ ε δ : Type}

/-! ## §1. One step after another. -/

theorem map_eq_ok_iff {f : β → γ} {r : Except ε β} {c : γ} :
    r.map f = .ok c ↔ ∃ b, r = .ok b ∧ f b = c := by
  cases r with
  | error e =>
    constructor
    · intro h
      cases h
    · rintro ⟨b, hb, _⟩
      cases hb
  | ok b =>
    constructor
    · intro h
      cases h
      exact ⟨b, rfl, rfl⟩
    · rintro ⟨_, hb, rfl⟩
      cases hb
      rfl

theorem map_eq_error_iff {f : β → γ} {r : Except ε β} {e : ε} :
    r.map f = .error e ↔ r = .error e := by
  cases r with
  | error e' =>
    constructor
    · intro h
      cases h
      rfl
    · intro h
      cases h
      rfl
  | ok b =>
    constructor
    · intro h
      cases h
    · intro h
      cases h

theorem bind_eq_ok_iff {f : β → Except ε γ} {r : Except ε β} {c : γ} :
    r >>= f = .ok c ↔ ∃ b, r = .ok b ∧ f b = .ok c := by
  cases r with
  | error e =>
    constructor
    · intro h
      cases h
    · rintro ⟨b, hb, _⟩
      cases hb
  | ok b =>
    constructor
    · intro h
      exact ⟨b, rfl, h⟩
    · rintro ⟨_, hb, h⟩
      cases hb
      exact h

theorem mapError_eq_ok_iff {f : ε → δ} {r : Except ε β} {b : β} :
    r.mapError f = .ok b ↔ r = .ok b := by
  cases r with
  | error e =>
    constructor
    · intro h
      cases h
    · intro h
      cases h
  | ok c =>
    constructor
    · intro h
      cases h
      rfl
    · intro h
      cases h
      rfl

/-- A success that was decided is one. -/
theorem exists_ok_of_isOk {r : Except ε β} (h : r.isOk = true) : ∃ b, r = .ok b := by
  cases r with
  | error e => cases h
  | ok b => exact ⟨b, rfl⟩

/-! ## §2. A list of steps. -/

/-- One step after the other comes to an end exactly if each step does. -/
theorem mapM_eq_ok_iff (f : β → Except ε γ) (l : List β) (ys : List γ) :
    l.mapM f = .ok ys ↔ l.map f = ys.map .ok := by
  induction l generalizing ys with
  | nil =>
    rw [List.mapM_nil, List.map_nil]
    cases ys with
    | nil => exact ⟨fun _ => rfl, fun _ => rfl⟩
    | cons y ys =>
      constructor
      · intro h
        cases h
      · intro h
        cases h
  | cons x l ih =>
    rw [List.mapM_cons, List.map_cons]
    constructor
    · intro h
      cases hx : f x with
      | error e =>
        rw [hx] at h
        cases h
      | ok y =>
        cases hl : l.mapM f with
        | error e =>
          rw [hx, hl] at h
          cases h
        | ok zs =>
          rw [hx, hl] at h
          cases h
          rw [(ih zs).mp hl, List.map_cons]
    · intro h
      cases ys with
      | nil => cases h
      | cons y ys =>
        rw [List.map_cons, List.cons_eq_cons] at h
        rw [h.1, (ih ys).mpr h.2]
        rfl

/-- One step after the other breaks off exactly if some step does. -/
theorem mapM_eq_error_iff (f : β → Except ε γ) (l : List β) :
    (∃ e, l.mapM f = .error e) ↔ ∃ x ∈ l, ∃ e, f x = .error e := by
  induction l with
  | nil =>
    rw [List.mapM_nil]
    constructor
    · rintro ⟨e, he⟩
      cases he
    · rintro ⟨x, hx, _⟩
      cases hx
  | cons x l ih =>
    simp only [List.mapM_cons, List.mem_cons, exists_eq_or_imp]
    cases hx : f x with
    | error e =>
      constructor
      · intro _
        exact Or.inl ⟨e, rfl⟩
      · intro _
        exact ⟨e, rfl⟩
    | ok y =>
      constructor
      · rintro ⟨e, he⟩
        right
        rw [← ih]
        cases hl : l.mapM f with
        | error e => exact ⟨e, rfl⟩
        | ok ys =>
          rw [hl] at he
          cases he
      · rintro (⟨e, he⟩ | hrest)
        · cases he
        · obtain ⟨e, he⟩ := ih.mpr hrest
          rw [he]
          exact ⟨e, rfl⟩

/-- **The first failure counts**: the steps before it have succeeded, and those after it are not
looked at. -/
theorem mapM_eq_error_first_iff (f : β → Except ε γ) (l : List β) (e : ε) :
    l.mapM f = .error e ↔ ∃ before x after, l = before ++ x :: after
      ∧ (∀ y ∈ before, ∃ c, f y = .ok c) ∧ f x = .error e := by
  induction l with
  | nil =>
    rw [List.mapM_nil]
    constructor
    · intro h
      cases h
    · rintro ⟨before, x, after, hl, _⟩
      cases before with
      | nil => cases hl
      | cons _ _ => cases hl
  | cons y l ih =>
    rw [List.mapM_cons]
    cases hy : f y with
    | error e' =>
      constructor
      · intro h
        cases h
        exact ⟨[], y, l, rfl, fun _ hmem => absurd hmem List.not_mem_nil, hy⟩
      · rintro ⟨before, x, after, hl, hbefore, hx⟩
        cases before with
        | nil =>
          cases hl
          cases hy.symm.trans hx
          rfl
        | cons z before =>
          -- The head is the first failure, so nothing stands before it.
          cases hl
          obtain ⟨c, hc⟩ := hbefore y List.mem_cons_self
          cases hy.symm.trans hc
    | ok c =>
      have hstep : (Except.ok c >>= fun c => l.mapM f >>= fun cs => pure (c :: cs)) = .error e
          ↔ l.mapM f = .error e := by
        cases l.mapM f with
        | error e' => exact Iff.rfl
        | ok cs =>
          constructor
          · intro h
            cases h
          · intro h
            cases h
      rw [hstep, ih]
      constructor
      · rintro ⟨before, x, after, rfl, hbefore, hx⟩
        exact ⟨y :: before, x, after, rfl, List.forall_mem_cons.mpr ⟨⟨c, hy⟩, hbefore⟩, hx⟩
      · rintro ⟨before, x, after, hl, hbefore, hx⟩
        cases before with
        | nil =>
          cases hl
          cases hy.symm.trans hx
        | cons z before =>
          cases hl
          exact ⟨before, x, after, rfl, (List.forall_mem_cons.mp hbefore).2, hx⟩

/-- **In another order** the steps come to the same results, each at its own place. -/
theorem exists_map_eq_ok_of_perm {f : β → Except ε γ} {l l' : List β} (h : l.Perm l') :
    ∀ {ys : List γ}, l.map f = ys.map .ok →
      ∃ ys', l'.map f = ys'.map .ok ∧ (l.zip ys).Perm (l'.zip ys') := by
  induction h with
  | nil =>
    intro ys hys
    exact ⟨ys, hys, .refl _⟩
  | cons x _ ih =>
    intro ys hys
    cases ys with
    | nil => cases hys
    | cons y ys =>
      rw [List.map_cons, List.map_cons, List.cons_eq_cons] at hys
      obtain ⟨ys', hys', hperm⟩ := ih hys.2
      exact ⟨y :: ys', by rw [List.map_cons, List.map_cons, hys.1, hys'], hperm.cons (x, y)⟩
  | swap x x' l =>
    intro ys hys
    -- The list begins with `x'` and then `x`, so there are at least two results.
    rw [List.map_cons, List.map_cons] at hys
    obtain ⟨y', ys, rfl, hx', hys⟩ := List.map_eq_cons_iff.mp hys.symm
    obtain ⟨y, ys, rfl, hx, hys⟩ := List.map_eq_cons_iff.mp hys
    refine ⟨y :: y' :: ys, ?_, .swap (x, y) (x', y') (l.zip ys)⟩
    rw [List.map_cons, List.map_cons, List.map_cons, List.map_cons, hx, hx', hys]
  | trans _ _ ih ih' =>
    intro ys hys
    obtain ⟨ys', hys', hperm⟩ := ih hys
    obtain ⟨ys'', hys'', hperm'⟩ := ih' hys'
    exact ⟨ys'', hys'', hperm.trans hperm'⟩

/-- One check after the other passes exactly if each check does. -/
theorem forM_eq_ok_iff (f : β → Except ε PUnit) (l : List β) :
    l.forM f = .ok () ↔ ∀ x ∈ l, f x = .ok () := by
  induction l with
  | nil => exact ⟨fun _ x hx => absurd hx List.not_mem_nil, fun _ => rfl⟩
  | cons x l ih =>
    show (f x >>= fun _ => l.forM f) = .ok () ↔ _
    rw [bind_eq_ok_iff, List.forall_mem_cons]
    constructor
    · rintro ⟨_, hx, hl⟩
      exact ⟨hx, ih.mp hl⟩
    · rintro ⟨hx, hl⟩
      exact ⟨(), hx, ih.mpr hl⟩

/-! ## §3. Checked values. -/

section Checks

variable {α : Type} [Scalar α] {value checked : α}

theorem ensureInterior_ok {r : Requirement} (h : ensureInterior r value = .ok checked) :
    checked = value ∧ (0.0 : α) < checked ∧ checked < 1.0 := by
  unfold ensureInterior at h
  by_cases hin : (0.0 : α) < value ∧ value < 1.0
  · rw [if_pos hin] at h
    cases h
    exact ⟨rfl, hin⟩
  · rw [if_neg hin] at h
    cases h

theorem ensurePositive_ok {r : Requirement} (h : ensurePositive r value = .ok checked) :
    checked = value := by
  unfold ensurePositive at h
  by_cases hpositive : (Scalar.isFinite value && decide (0.0 < value)) = true
  · rw [if_pos hpositive] at h
    cases h
    rfl
  · rw [if_neg hpositive] at h
    cases h

theorem ensureFactor_ok {r : Requirement} (h : ensureFactor r value = .ok checked) :
    checked = value ∧ (0.0 : α) < checked ∧ checked ≤ 1.0 := by
  unfold ensureFactor at h
  by_cases hin : (0.0 : α) < value ∧ value ≤ 1.0
  · rw [if_pos hin] at h
    cases h
    exact ⟨rfl, hin⟩
  · rw [if_neg hin] at h
    cases h

end Checks

end CapacityControl
