/-
Application seen apart from its accounts.  Without a step allowance the count at
the start only shifts the count at the end, and an application that finds levels
enough is not changed by more of them.  What is left is a relation between a
function, an argument and a result.
-/
import Combinatory.Machine.Run

namespace Combinatory.Value

variable {limit : Option Int} {depth : Nat} {f x r : Value} {m n : Nat}

/-- An application that is not cut short by the nesting bound is the same under
every larger one. -/
theorem apply_of_depth_le {depth' : Nat} (hle : depth ≤ depth')
    (hdeep : ∀ stop, apply limit depth f x n ≠ .error .tooDeep stop) :
    apply limit depth' f x n = apply limit depth f x n := by
  induction depth generalizing depth' f x n with
  | zero => exact absurd rfl (hdeep n)
  | succ depth ih =>
      obtain ⟨depth', rfl⟩ : ∃ k, depth' = k + 1 := ⟨depth' - 1, by omega⟩
      have hle' : depth ≤ depth' := Nat.le_of_succ_le_succ hle
      rw [apply_succ] at hdeep ⊢
      rw [apply_succ]
      cases htick : tick limit n with
      | error e n => rfl
      | ok _ n =>
          cases f with
          | s₂ g h =>
              simp only [htick] at hdeep ⊢
              have hfirst : apply limit depth' g x n =
                  apply limit depth g x n := by
                apply ih hle'
                intro stop hstop
                exact hdeep stop (by rw [hstop])
              rw [hfirst]
              cases hfunction : apply limit depth g x n with
              | error e n => rfl
              | ok function n =>
                  simp only [hfunction] at hdeep ⊢
                  have hsecond : apply limit depth' h x n =
                      apply limit depth h x n := by
                    apply ih hle'
                    intro stop hstop
                    exact hdeep stop (by rw [hstop])
                  rw [hsecond]
                  cases hargument : apply limit depth h x n with
                  | error e n => rfl
                  | ok argument n =>
                      simp only [hargument] at hdeep
                      exact ih hle' hdeep
          | _ => rfl

theorem apply_ok_of_depth_le {depth' : Nat} (hle : depth ≤ depth')
    (happly : apply limit depth f x m = .ok r n) :
    apply limit depth' f x m = .ok r n := by
  rw [apply_of_depth_le hle, happly]
  intro stop hstop
  rw [happly] at hstop
  cases hstop

/-- `f` applied to `x` comes to `r`, however many steps and levels that
takes. -/
inductive Yields : Value → Value → Value → Prop where
  | s (x : Value) : Yields .s x (.s₁ x)
  | k (x : Value) : Yields .k x (.k₁ x)
  | i (x : Value) : Yields .i x x
  | s₁ (g x : Value) : Yields (.s₁ g) x (.s₂ g x)
  | k₁ (g x : Value) : Yields (.k₁ g) x g
  | s₂ {g h x function argument r : Value} :
      Yields g x function → Yields h x argument →
      Yields function argument r → Yields (.s₂ g h) x r

/-- The value that a computed application returns is one that the rules
yield. -/
theorem yields_of_apply (happly : apply limit depth f x m = .ok r n) :
    Yields f x r := by
  induction depth generalizing f x r m n with
  | zero => cases happly
  | succ depth ih =>
      rw [apply_succ] at happly
      cases htick : tick limit m with
      | error e m =>
          rw [htick] at happly
          cases happly
      | ok _ m =>
          simp only [htick] at happly
          cases f with
          | s => cases happly; exact .s x
          | k => cases happly; exact .k x
          | i => cases happly; exact .i _
          | s₁ g => cases happly; exact .s₁ g x
          | k₁ g => cases happly; exact .k₁ _ x
          | s₂ g h =>
              simp only at happly
              split at happly
              · contradiction
              · next function _ hfunction =>
                split at happly
                · contradiction
                · next argument _ hargument =>
                  exact .s₂ (ih hfunction) (ih hargument) (ih happly)

/-- What the rules yield is computed under some nesting bound, wherever the
count starts. -/
theorem exists_depth_of_yields (hyields : Yields f x r) :
    ∃ depth, ∀ start, ∃ stop, apply none depth f x start = .ok r stop := by
  induction hyields with
  | s x => exact ⟨1, fun start => ⟨start + 1, rfl⟩⟩
  | k x => exact ⟨1, fun start => ⟨start + 1, rfl⟩⟩
  | i x => exact ⟨1, fun start => ⟨start + 1, rfl⟩⟩
  | s₁ g x => exact ⟨1, fun start => ⟨start + 1, rfl⟩⟩
  | k₁ g x => exact ⟨1, fun start => ⟨start + 1, rfl⟩⟩
  | s₂ _ _ _ ihg ihh ihr =>
      obtain ⟨depthG, hg⟩ := ihg
      obtain ⟨depthH, hh⟩ := ihh
      obtain ⟨depthR, hr⟩ := ihr
      let depth := max depthG (max depthH depthR)
      refine ⟨depth + 1, ?_⟩
      intro start
      obtain ⟨first, hfirst⟩ := hg (start + 1)
      obtain ⟨second, hsecond⟩ := hh first
      obtain ⟨third, hthird⟩ := hr second
      have hleG : depthG ≤ depth := by omega
      have hleH : depthH ≤ depth := by omega
      have hleR : depthR ≤ depth := by omega
      refine ⟨third, ?_⟩
      rw [apply_succ]
      simp only [tick, apply_ok_of_depth_le hleG hfirst,
        apply_ok_of_depth_le hleH hsecond, apply_ok_of_depth_le hleR hthird]

end Combinatory.Value
