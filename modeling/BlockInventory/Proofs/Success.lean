/-!
# How computations end

A computation that may fail succeeds exactly when each of its parts does, and fails as the first of its parts that
does. Two computations have the same outcome if both fail alike or both succeed.
-/

set_option autoImplicit false

namespace BlockInventory

variable {Failure OtherFailure α β : Type} {result : β}

theorem bind_eq_ok_iff {first : Except Failure α} {next : α → Except Failure β} :
    (first >>= next) = .ok result ↔ ∃ value, first = .ok value ∧ next value = .ok result := by
  cases first with
  | error failure =>
      constructor
      · intro success
        cases success
      · intro success
        obtain ⟨_, impossible, _⟩ := success
        cases impossible
  | ok value =>
      constructor
      · intro success
        exact ⟨value, rfl, success⟩
      · intro success
        obtain ⟨_, same, success⟩ := success
        cases same
        exact success

theorem map_eq_ok_iff {first : Except Failure α} {f : α → β} :
    first.map f = .ok result ↔ ∃ value, first = .ok value ∧ f value = result := by
  cases first with
  | error failure =>
      constructor
      · intro success
        cases success
      · intro success
        obtain ⟨_, impossible, _⟩ := success
        cases impossible
  | ok value =>
      constructor
      · intro success
        cases success
        exact ⟨value, rfl, rfl⟩
      · intro success
        obtain ⟨_, same, rfl⟩ := success
        cases same
        rfl

theorem mapError_eq_ok_iff {first : Except Failure β} {f : Failure → OtherFailure} :
    first.mapError f = .ok result ↔ first = .ok result := by
  cases first with
  | error failure =>
      constructor
      · intro success
        cases success
      · intro success
        cases success
  | ok value =>
      constructor
      · intro success
        cases success
        rfl
      · intro success
        cases success
        rfl

/-- A list is read exactly when each of its items is. -/
theorem mapM_eq_some_iff {read? : α → Option β} {items : List α} {results : List β} :
    items.mapM read? = some results ↔ items.map read? = results.map some := by
  induction items generalizing results with
  | nil =>
      cases results <;> simp
  | cons item items ih =>
      simp only [List.mapM_cons, Option.bind_eq_bind, Option.bind_eq_some_iff, ih, List.map_cons]
      constructor
      · rintro ⟨first, found, further, readFurther, whole⟩
        cases whole
        rw [found, readFurther, List.map_cons]
      · intro shape
        obtain ⟨first, further, rfl, found, readFurther⟩ := List.map_eq_cons_iff.mp shape.symm
        exact ⟨first, found.symm, further, readFurther.symm, rfl⟩

/-! ## Failures -/

theorem bind_eq_error_iff {failure : Failure} {first : Except Failure α} {next : α → Except Failure β} :
    (first >>= next) = .error failure ↔
      first = .error failure ∨ ∃ value, first = .ok value ∧ next value = .error failure := by
  cases first with
  | error other =>
      constructor
      · intro failed
        cases failed
        exact .inl rfl
      · intro failed
        obtain failed | ⟨_, impossible, _⟩ := failed
        · cases failed
          rfl
        · cases impossible
  | ok value =>
      constructor
      · intro failed
        exact .inr ⟨value, rfl, failed⟩
      · intro failed
        obtain impossible | ⟨_, same, failed⟩ := failed
        · cases impossible
        · cases same
          exact failed

theorem map_eq_error_iff {failure : Failure} {first : Except Failure α} {f : α → β} :
    first.map f = .error failure ↔ first = .error failure := by
  cases first with
  | error other =>
      constructor
      · intro failed
        cases failed
        rfl
      · intro failed
        cases failed
        rfl
  | ok value =>
      constructor
      · intro failed
        cases failed
      · intro failed
        cases failed

theorem mapError_eq_error_iff {failure : OtherFailure} {first : Except Failure β} {f : Failure → OtherFailure} :
    first.mapError f = .error failure ↔ ∃ cause, first = .error cause ∧ f cause = failure := by
  cases first with
  | error cause =>
      constructor
      · intro failed
        cases failed
        exact ⟨cause, rfl, rfl⟩
      · intro failed
        obtain ⟨_, same, rfl⟩ := failed
        cases same
        rfl
  | ok value =>
      constructor
      · intro failed
        cases failed
      · intro failed
        obtain ⟨_, impossible, _⟩ := failed
        cases impossible

/-! ## Two computations -/

/-- Both fail alike, or both succeed with related results. -/
inductive SameOutcome (related : α → β → Prop) : Except Failure α → Except Failure β → Prop where
  | error {failure : Failure} : SameOutcome related (.error failure) (.error failure)
  | ok {left : α} {right : β} : related left right → SameOutcome related (.ok left) (.ok right)

theorem SameOutcome.bind {γ : Type} {related : α → β → Prop} (first : Except Failure γ) {left : γ → Except Failure α}
    {right : γ → Except Failure β}
    (relates : ∀ value, first = .ok value → SameOutcome related (left value) (right value)) :
    SameOutcome related (first >>= left) (first >>= right) := by
  cases first with
  | error failure => exact .error
  | ok value => exact relates value rfl

theorem SameOutcome.map {γ : Type} {related : α → β → Prop} (first : Except Failure γ) {left : γ → α} {right : γ → β}
    (relates : ∀ value, first = .ok value → related (left value) (right value)) :
    SameOutcome related (first.map left) (first.map right) := by
  cases first with
  | error failure => exact .error
  | ok value => exact .ok (relates value rfl)

end BlockInventory
