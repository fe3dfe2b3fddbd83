/-!
# Outcomes of steps

Steps one after another succeed if each of them does. They fail as the first of them does that
fails.
-/

namespace DocMerge

universe u v w

variable {α : Type w} {β γ : Type u} {ε : Type v}

theorem bind_eq_ok_iff {x : Except ε β} {f : β → Except ε γ} :
    x >>= f = .ok c ↔ ∃ b, x = .ok b ∧ f b = .ok c := by
  cases x <;> simp [bind, Except.bind]

theorem bind_eq_error_iff {x : Except ε β} {f : β → Except ε γ} :
    x >>= f = .error e ↔ x = .error e ∨ ∃ b, x = .ok b ∧ f b = .error e := by
  cases x <;> simp [bind, Except.bind]

theorem bind_pure_eq_error_iff {x : Except ε β} {f : β → γ} :
    x >>= (fun b => pure (f b)) = .error e ↔ x = .error e := by
  cases x <;> simp [bind, Except.bind, pure, Except.pure]

@[simp] theorem pure_eq_ok_iff {b b' : β} : (pure b : Except ε β) = .ok b' ↔ b = b' := by
  simp [pure, Except.pure]

@[simp] theorem pure_ne_error {b : β} {e : ε} : (pure b : Except ε β) ≠ .error e := by
  simp [pure, Except.pure]

theorem length_of_mapM {g : α → Except ε β} {xs : List α} {ys : List β} (h : xs.mapM g = .ok ys) :
    ys.length = xs.length := by
  induction xs generalizing ys with
  | nil =>
    obtain rfl : [] = ys := Except.ok.inj h
    rfl
  | cons a xs ih =>
    simp only [List.mapM_cons, bind_eq_ok_iff, pure_eq_ok_iff] at h
    obtain ⟨b, -, bs, hbs, rfl⟩ := h
    simp [ih hbs]

theorem foldlM_keeps {step : β → α → Except ε β} {P : β → Prop} {xs : List α}
    (h : ∀ a ∈ xs, ∀ b b', P b → step b a = .ok b' → P b') (hb : P b)
    (hfold : xs.foldlM step b = .ok b') : P b' := by
  induction xs generalizing b with
  | nil =>
    obtain rfl : b = b' := Except.ok.inj hfold
    exact hb
  | cons a xs ih =>
    rw [List.foldlM_cons, bind_eq_ok_iff] at hfold
    obtain ⟨between, hstep, hrest⟩ := hfold
    exact ih (fun a' ha' => h a' (List.mem_cons_of_mem _ ha'))
      (h a List.mem_cons_self b between hb hstep) hrest

end DocMerge
