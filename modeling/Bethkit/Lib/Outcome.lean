import Mathlib

/-!
# Results that may be errors

How a computation in `Except` that succeeded comes apart into its steps, and what a fold of such
computations preserves.
-/

namespace Bethkit.Lib

variable {ε ε' α β σ : Type}

/-- A sequence succeeds if both of its steps do. -/
@[simp]
theorem bind_eq_ok {first : Except ε α} {next : α → Except ε β} {result : β} :
    first >>= next = .ok result ↔ ∃ value, first = .ok value ∧ next value = .ok result := by
  cases first with
  | error error => simp [bind, Except.bind]
  | ok value => simp [bind, Except.bind]

/-- A sequence fails if its first step does or its second one behind it. -/
theorem bind_eq_error {first : Except ε α} {next : α → Except ε β} {error : ε} :
    first >>= next = .error error ↔
      first = .error error ∨ ∃ value, first = .ok value ∧ next value = .error error := by
  cases first with
  | error error => simp [bind, Except.bind]
  | ok value => simp [bind, Except.bind]

/-- The image of a result is a success if the result is. -/
@[simp]
theorem map_eq_ok {change : α → β} {outcome : Except ε α} {result : β} :
    outcome.map change = .ok result ↔ ∃ value, outcome = .ok value ∧ change value = result := by
  cases outcome with
  | error error => simp [Except.map]
  | ok value => simp [Except.map]

/-- The image of a result fails if the result does. -/
@[simp]
theorem map_eq_error {change : α → β} {outcome : Except ε α} {error : ε} :
    outcome.map change = .error error ↔ outcome = .error error := by
  cases outcome with
  | error error => simp [Except.map]
  | ok value => simp [Except.map]

/-- Errors of another kind come from errors. -/
@[simp]
theorem mapError_eq_error {convert : ε → ε'} {outcome : Except ε α} {error : ε'} :
    outcome.mapError convert = .error error ↔ ∃ cause, outcome = .error cause ∧
      convert cause = error := by
  cases outcome with
  | error error => simp [Except.mapError]
  | ok value => simp [Except.mapError]

/-- Errors of another kind do not change successes. -/
@[simp]
theorem mapError_eq_ok {convert : ε → ε'} {outcome : Except ε α} {result : α} :
    outcome.mapError convert = .ok result ↔ outcome = .ok result := by
  cases outcome with
  | error error => simp [Except.mapError]
  | ok value => simp [Except.mapError]

/-- A step after a success. -/
@[simp]
theorem ok_bind (value : α) (next : α → Except ε β) :
    ((.ok value : Except ε α) >>= next) = next value := rfl

/-- A step after an error. -/
@[simp]
theorem error_bind (error : ε) (next : α → Except ε β) :
    ((.error error : Except ε α) >>= next) = .error error := rfl

/-- A result known by its value. -/
theorem eq_ok_of_toOption {outcome : Except ε α} {value : α}
    (known : outcome.toOption = some value) : outcome = .ok value := by
  cases outcome with
  | error error => contradiction
  | ok other => exact congrArg _ (Option.some.inj known)

/-- A result known to be a success. -/
theorem eq_ok_of_isOk {outcome : Except ε α} (known : outcome.isOk = true) (other : α) :
    outcome = .ok (outcome.toOption.getD other) := by
  cases outcome with
  | error error => cases known
  | ok value => rfl

/-- A checked result is a success if the check passes. -/
theorem ite_error_eq_ok {check : Prop} [Decidable check] {error : ε} {value result : α} :
    (if check then .error error else .ok value : Except ε α) = .ok result ↔
      ¬check ∧ value = result := by
  by_cases fails : check
  · simp [fails]
  · simp [fails]

/-- A list is mapped successfully if every item is. -/
theorem mapM_eq_ok {change : α → Except ε β} {items : List α} {results : List β} :
    items.mapM change = .ok results ↔
      List.Forall₂ (fun item result => change item = .ok result) items results := by
  induction items generalizing results with
  | nil =>
    rw [List.mapM_nil, List.forall₂_nil_left_iff]
    exact ⟨fun same => (Except.ok.inj same).symm, fun same => same ▸ rfl⟩
  | cons item items rest =>
    rw [List.mapM_cons, bind_eq_ok, List.forall₂_cons_left_iff]
    constructor
    · rintro ⟨result, first, more⟩
      obtain ⟨others, after, same⟩ := bind_eq_ok.mp more
      exact ⟨result, others, first, rest.mp after, (Except.ok.inj same).symm⟩
    · rintro ⟨result, others, first, after, rfl⟩
      refine ⟨result, first, ?_⟩
      rw [rest.mpr after]
      rfl

/-- Every result comes from an item. -/
theorem mem_of_mapM_eq_ok {change : α → Except ε β} {items : List α} {results : List β}
    (mapped : items.mapM change = .ok results) {result : β} (among : result ∈ results) :
    ∃ item ∈ items, change item = .ok result := by
  have each := mapM_eq_ok.mp mapped
  induction each with
  | nil => cases among
  | @cons item first items results own _ rest =>
    rcases List.mem_cons.mp among with rfl | among
    · exact ⟨item, List.mem_cons_self, own⟩
    · obtain ⟨item, member, made⟩ := rest (mapM_eq_ok.mpr ‹_›) among
      exact ⟨item, List.mem_cons_of_mem _ member, made⟩

/-- Items in another order are mapped to the results in another order. -/
theorem mapM_perm {change : α → Except ε β} {items others : List α} (same : items.Perm others)
    {results : List β} (mapped : items.mapM change = .ok results) :
    ∃ changed, others.mapM change = .ok changed ∧ changed.Perm results := by
  induction same generalizing results with
  | nil => exact ⟨results, mapped, .refl _⟩
  | cons item _ rest =>
    rw [List.mapM_cons] at mapped
    obtain ⟨first, own, mapped⟩ := bind_eq_ok.mp mapped
    obtain ⟨later, others, mapped⟩ := bind_eq_ok.mp mapped
    cases mapped
    obtain ⟨changed, outcome, perm⟩ := rest others
    refine ⟨first :: changed, ?_, perm.cons first⟩
    rw [List.mapM_cons, own, ok_bind, outcome, ok_bind]
    rfl
  | swap item other items =>
    rw [List.mapM_cons, List.mapM_cons] at mapped
    obtain ⟨first, own, mapped⟩ := bind_eq_ok.mp mapped
    obtain ⟨pair, inner, mapped⟩ := bind_eq_ok.mp mapped
    cases mapped
    obtain ⟨second, next, inner⟩ := bind_eq_ok.mp inner
    obtain ⟨later, rest, inner⟩ := bind_eq_ok.mp inner
    cases inner
    refine ⟨second :: first :: later, ?_, .swap ..⟩
    rw [List.mapM_cons, next, ok_bind, List.mapM_cons, own, ok_bind, rest, ok_bind]
    rfl
  | trans _ _ first second =>
    obtain ⟨between, mapped, perm⟩ := first mapped
    obtain ⟨changed, outcome, again⟩ := second mapped
    exact ⟨changed, outcome, again.trans perm⟩

/-- Two folds whose steps agree on the items agree. -/
theorem foldlM_congr_mem {first second : σ → α → Except ε σ} {items : List α}
    (same : ∀ state, ∀ item ∈ items, first state item = second state item) {start : σ} :
    items.foldlM first start = items.foldlM second start := by
  induction items generalizing start with
  | nil => rfl
  | cons item items rest =>
    rw [List.foldlM_cons, List.foldlM_cons, same start item List.mem_cons_self]
    refine congrArg (second start item >>= ·) (funext fun next => ?_)
    exact rest fun state other member => same state other (List.mem_cons_of_mem _ member)

/-- The image of a sequence, when its second step commutes with the images. -/
theorem map_bind_map {γ δ : Type} {first : Except ε α} {next : α → Except ε β}
    {image : α → γ} {change : β → δ} {other : γ → Except ε δ}
    (commutes : ∀ value, first = .ok value → other (image value) = (next value).map change) :
    first.map image >>= other = (first >>= next).map change := by
  cases first with
  | error error => rfl
  | ok value => exact commutes value rfl

/-- A relation that every step of a fold preserves holds of its ends. -/
theorem foldlM_preserves {step : σ → α → Except ε σ} {relation : σ → σ → Prop}
    (refl : ∀ state, relation state state)
    (trans : ∀ {first second third}, relation first second → relation second third →
      relation first third)
    {items : List α} {start finish : σ}
    (single : ∀ item ∈ items, ∀ {before after}, step before item = .ok after →
      relation before after)
    (done : items.foldlM step start = .ok finish) : relation start finish := by
  induction items generalizing start with
  | nil =>
    obtain rfl := Except.ok.inj done
    exact refl start
  | cons item items rest =>
    rw [List.foldlM_cons, bind_eq_ok] at done
    obtain ⟨middle, first, done⟩ := done
    exact trans (single item List.mem_cons_self first)
      (rest (fun item member => single item (List.mem_cons_of_mem _ member)) done)

end Bethkit.Lib
