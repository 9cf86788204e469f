import Mathlib

/-!
# Picking by key, and pieces of equal length

Items with different keys are picked in the order of a list of keys. When the keys are a
permutation of those of the items, nothing is lost. A concatenation of pieces is determined by
the pieces, and determines them when the lengths are known.
-/

namespace Bethkit.Lib

section Pick

variable {α κ : Type} [DecidableEq κ] (key : α → κ)

/-- The first item for every key, in the order of the keys. -/
def pick (keys : List κ) (items : List α) : List α :=
  keys.filterMap fun wanted => items.find? fun item => key item = wanted

/-- A key that is found picks its item. -/
theorem pick_cons {wanted : κ} {keys : List κ} {items : List α} {item : α}
    (hit : (items.find? fun item => key item = wanted) = some item) :
    pick key (wanted :: keys) items = item :: pick key keys items := by
  simp [pick, hit]

/-- Picked items are among the items. -/
theorem mem_of_mem_pick {keys : List κ} {items : List α} {item : α}
    (found : item ∈ pick key keys items) : item ∈ items := by
  obtain ⟨_, _, hit⟩ := List.mem_filterMap.mp found
  exact List.mem_of_find?_eq_some hit

/-- An item with a key of its own is the one found by that key. -/
theorem find_key {items : List α} (different : (items.map key).Nodup) {item : α}
    (among : item ∈ items) : (items.find? fun other => key other = key item) = some item := by
  induction items with
  | nil => exact absurd among List.not_mem_nil
  | cons head items ih =>
    obtain ⟨apart, rest⟩ := List.nodup_cons.mp different
    rcases List.mem_cons.mp among with rfl | later
    · simp
    · have other : key head ≠ key item := fun same => apart (same ▸ List.mem_map_of_mem later)
      simp [other, ih rest later]

/-- Picking by the keys of the items gives the items. -/
theorem pick_self {items : List α} (different : (items.map key).Nodup) :
    pick key (items.map key) items = items := by
  have each : ∀ chosen : List α, chosen ⊆ items → pick key (chosen.map key) items = chosen := by
    intro chosen inside
    induction chosen with
    | nil => rfl
    | cons head chosen ih =>
      rw [List.map_cons, pick_cons key (find_key key different (inside List.mem_cons_self)),
        ih fun _ found => inside (List.mem_cons_of_mem _ found)]
  exact each items (List.Subset.refl items)

/-- Picking by a permutation of the keys permutes the items. -/
theorem pick_perm {keys : List κ} {items : List α} (different : (items.map key).Nodup)
    (shuffled : keys.Perm (items.map key)) : (pick key keys items).Perm items := by
  have moved := shuffled.filterMap fun wanted => items.find? fun item => key item = wanted
  exact moved.trans (List.Perm.of_eq (pick_self key different))

/-- The picked items have the keys they were picked by, when every key is there. -/
theorem map_key_pick {keys : List κ} {items : List α} (known : ∀ wanted ∈ keys,
    wanted ∈ items.map key) : (pick key keys items).map key = keys := by
  induction keys with
  | nil => rfl
  | cons wanted keys ih =>
    obtain ⟨item, among, same⟩ := List.mem_map.mp (known wanted List.mem_cons_self)
    cases hit : items.find? fun item => key item = wanted with
    | none => simpa [same] using List.find?_eq_none.mp hit item among
    | some item =>
      have keyed : key item = wanted := by simpa using List.find?_some hit
      rw [pick_cons key hit, List.map_cons, keyed,
        ih fun other found => known other (List.mem_cons_of_mem _ found)]

/-- Related items with the same keys are found together. -/
theorem find_rel {β : Type} {related : α → β → Prop} {other : β → κ} {items : List α}
    {others : List β} (each : List.Forall₂ related items others)
    (keyed : ∀ item ∈ items, ∀ image ∈ others, related item image → key item = other image)
    (wanted : κ) : Option.Rel related (items.find? fun item => key item = wanted)
      (others.find? fun image => other image = wanted) := by
  induction each with
  | nil => exact .none
  | @cons item image items others head _ ih =>
    have same := keyed item List.mem_cons_self image List.mem_cons_self head
    by_cases hit : key item = wanted
    · rw [List.find?_cons_of_pos (by simpa using hit),
        List.find?_cons_of_pos (by simpa [← same] using hit)]
      exact .some head
    · rw [List.find?_cons_of_neg (by simpa using hit),
        List.find?_cons_of_neg (by simpa [← same] using hit)]
      exact ih fun item among image inside =>
        keyed item (List.mem_cons_of_mem _ among) image (List.mem_cons_of_mem _ inside)

/-- Related items with the same keys are picked together. -/
theorem pick_rel {β : Type} {related : α → β → Prop} {other : β → κ} {items : List α}
    {others : List β} (each : List.Forall₂ related items others)
    (keyed : ∀ item ∈ items, ∀ image ∈ others, related item image → key item = other image)
    (keys : List κ) : List.Forall₂ related (pick key keys items) (pick other keys others) := by
  induction keys with
  | nil => exact .nil
  | cons wanted keys ih =>
    have found := find_rel key each keyed wanted
    unfold pick at ih ⊢
    rw [List.filterMap_cons, List.filterMap_cons]
    generalize (items.find? fun item => key item = wanted) = one at found ⊢
    generalize (others.find? fun image => other image = wanted) = two at found ⊢
    cases found with
    | none => exact ih
    | some head => exact .cons head ih

end Pick

/-- Related items of two lists are related in another way when each pair is. -/
theorem forall₂_imp_mem {α β : Type} {first second : α → β → Prop} {left : List α} {right : List β}
    (all : List.Forall₂ first left right)
    (each : ∀ a ∈ left, ∀ b ∈ right, first a b → second a b) : List.Forall₂ second left right := by
  induction all with
  | nil => exact .nil
  | cons head _ ih =>
    exact .cons (each _ List.mem_cons_self _ List.mem_cons_self head)
      (ih fun a inLeft b inRight =>
        each a (List.mem_cons_of_mem _ inLeft) b (List.mem_cons_of_mem _ inRight))

/-- An item of the second list is related to one of the first. -/
theorem exists_of_mem_right {α β : Type} {related : α → β → Prop} {left : List α} {right : List β}
    (all : List.Forall₂ related left right) {b : β} (among : b ∈ right) :
    ∃ a ∈ left, related a b := by
  induction all with
  | nil => exact absurd among List.not_mem_nil
  | cons head _ ih =>
    rcases List.mem_cons.mp among with rfl | later
    · exact ⟨_, List.mem_cons_self, head⟩
    · obtain ⟨a, inside, found⟩ := ih later
      exact ⟨a, List.mem_cons_of_mem _ inside, found⟩

/-- Pieces with the same lengths are determined by their concatenation. -/
theorem eq_of_flatten_eq {α : Type} {left right : List (List α)}
    (lengths : left.map List.length = right.map List.length) (same : left.flatten = right.flatten) :
    left = right := by
  induction left generalizing right with
  | nil => cases right with
    | nil => rfl
    | cons piece right => simp at lengths
  | cons piece left ih =>
    cases right with
    | nil => simp at lengths
    | cons other right =>
      simp only [List.map_cons, List.cons.injEq] at lengths
      obtain ⟨head, tail⟩ := List.append_inj same lengths.1
      rw [head, ih lengths.2 tail]

end Bethkit.Lib
