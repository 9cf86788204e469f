import Mathlib

/-!
# Positions among the kept items

A list of which only the items with a property are kept. A position of the list has a rank, the
number of kept items before it, and a next kept item, which is the item of that rank among the
kept ones. Tables beside the list are compacted alike.
-/

namespace Bethkit.Lib

variable {α β : Type} (kept : α → Bool)

/-- The number of kept items before a position. -/
def rank (items : List α) (index : Nat) : Nat := (items.take index).countP kept

/-- The position of the next kept item, or the end. -/
def nextKept (items : List α) (index : Nat) : Nat :=
  index + ((items.drop index).takeWhile fun item => !kept item).length

/-- The entries of a table that stand beside kept items. -/
def compactTable (items : List α) (table : List β) : List β :=
  ((items.zip table).filter fun entry => kept entry.1).map Prod.snd

variable {kept}

/-- Nothing lies before the first position. -/
@[simp]
theorem rank_zero (items : List α) : rank kept items 0 = 0 := rfl

/-- An empty list has no kept items. -/
@[simp]
theorem rank_nil (index : Nat) : rank kept [] index = 0 := by simp [rank]

/-- The first item counts if it is kept. -/
@[simp]
theorem rank_cons_succ (item : α) (items : List α) (index : Nat) :
    rank kept (item :: items) (index + 1) =
      rank kept items index + if kept item then 1 else 0 := by
  rw [rank, List.take_succ_cons, List.countP_cons, rank]

/-- An empty list has no next item. -/
@[simp]
theorem nextKept_nil (index : Nat) : nextKept kept [] index = index := by simp [nextKept]

/-- The first item is the next one if it is kept. -/
theorem nextKept_cons_zero (item : α) (items : List α) :
    nextKept kept (item :: items) 0 = if kept item then 0 else nextKept kept items 0 + 1 := by
  rw [nextKept, nextKept, List.drop_zero, List.drop_zero, List.takeWhile_cons]
  cases kept item with
  | true => rfl
  | false => simp

/-- An item before the position does not matter. -/
@[simp]
theorem nextKept_cons_succ (item : α) (items : List α) (index : Nat) :
    nextKept kept (item :: items) (index + 1) = nextKept kept items index + 1 := by
  rw [nextKept, nextKept, List.drop_succ_cons, Nat.add_right_comm]

/-- The next kept item has its rank among the kept items. -/
theorem getElem?_nextKept (items : List α) (index : Nat) :
    items[nextKept kept items index]? = (items.filter kept)[rank kept items index]? := by
  induction items generalizing index with
  | nil => simp
  | cons item items more =>
    cases index with
    | zero =>
      have first := more 0
      rw [rank_zero] at first
      rw [nextKept_cons_zero, rank_zero, List.filter_cons]
      cases kept item with
      | true => rfl
      | false => simpa using first
    | succ index =>
      rw [nextKept_cons_succ, rank_cons_succ, List.getElem?_cons_succ, more, List.filter_cons]
      cases kept item with
      | true => rw [if_pos rfl, if_pos rfl, List.getElem?_cons_succ]
      | false => rfl

/-- A kept item has its rank among the kept items. -/
theorem getElem?_rank {items : List α} {index : Nat} {item : α}
    (found : items[index]? = some item) (keeps : kept item) :
    (items.filter kept)[rank kept items index]? = some item := by
  rw [← getElem?_nextKept]
  have rest : items.drop index = item :: items.drop (index + 1) :=
    (List.getElem?_eq_some_iff.mp found).elim fun bound same =>
      same ▸ (List.drop_eq_getElem_cons bound)
  rw [nextKept, rest, List.takeWhile_cons, keeps]
  exact found

/-- The next kept item is kept. -/
theorem keeps_of_nextKept {items : List α} {index : Nat} {item : α}
    (found : items[nextKept kept items index]? = some item) : kept item := by
  rw [getElem?_nextKept] at found
  exact (List.mem_filter.mp (List.mem_of_getElem? found)).2

/-- No kept item lies before the next one. -/
@[simp]
theorem rank_nextKept (items : List α) (index : Nat) :
    rank kept items (nextKept kept items index) = rank kept items index := by
  induction items generalizing index with
  | nil => simp
  | cons item items more =>
    cases index with
    | zero =>
      rw [nextKept_cons_zero]
      cases keeps : kept item with
      | true => rfl
      | false =>
        have first := more 0
        rw [rank_zero] at first
        simp only [Bool.false_eq_true, if_false, rank_cons_succ, keeps, first, rank_zero]
    | succ index => rw [nextKept_cons_succ, rank_cons_succ, rank_cons_succ, more]

/-- A kept item is counted behind its position. -/
theorem rank_succ {items : List α} {index : Nat} {item : α}
    (found : items[index]? = some item) (keeps : kept item) :
    rank kept items (index + 1) = rank kept items index + 1 := by
  rw [rank, List.take_add_one, found, List.countP_append]
  simp [rank, keeps]

/-- The next kept items of two positions are ordered like the ranks. -/
theorem nextKept_lt_iff {items : List α} {first second : Nat} (left : first ≤ items.length)
    (right : second ≤ items.length) :
    nextKept kept items first < nextKept kept items second ↔
      rank kept items first < rank kept items second := by
  induction items generalizing first second with
  | nil =>
    have firstZero : first = 0 := Nat.le_zero.mp left
    have secondZero : second = 0 := Nat.le_zero.mp right
    subst firstZero secondZero
    simp
  | cons item items more =>
    cases first with
    | zero =>
      cases second with
      | zero => simp
      | succ second =>
        have step := more (Nat.zero_le _) (Nat.le_of_succ_le_succ right)
        rw [rank_zero] at step
        rw [nextKept_cons_zero, nextKept_cons_succ, rank_zero, rank_cons_succ]
        cases kept item with
        | true => simp
        | false => simpa using step
    | succ first =>
      cases second with
      | zero =>
        have step := more (Nat.le_of_succ_le_succ left) (Nat.zero_le items.length)
        rw [rank_zero] at step
        rw [nextKept_cons_zero, nextKept_cons_succ, rank_zero, rank_cons_succ]
        cases kept item with
        | true => simp
        | false => simpa using step
      | succ second =>
        have step := more (Nat.le_of_succ_le_succ left) (Nat.le_of_succ_le_succ right)
        rw [nextKept_cons_succ, nextKept_cons_succ, rank_cons_succ, rank_cons_succ,
          Nat.add_lt_add_iff_right, Nat.add_lt_add_iff_right, step]

/-- There are not more kept items before a position than in the list. -/
theorem rank_le (items : List α) (index : Nat) :
    rank kept items index ≤ (items.filter kept).length := by
  rw [rank, ← List.countP_eq_length_filter]
  exact (List.take_sublist index items).countP_le

/-- The first kept item from a position on has its rank among the kept items. -/
theorem find?_drop (items : List α) (index : Nat) :
    (items.drop index).find? kept = (items.filter kept)[rank kept items index]? := by
  have whole := List.take_append_drop index items
  conv_rhs => rw [← whole, List.filter_append, whole]
  rw [rank, List.countP_eq_length_filter, List.getElem?_append_right (Nat.le_refl _),
    Nat.sub_self, ← List.head?_eq_getElem?, List.head?_filter]

/-- Among the kept items every item is the first kept one from its position on. -/
theorem find?_drop_filter (items : List α) (index : Nat) :
    ((items.filter kept).drop index).find? kept = (items.filter kept)[index]? := by
  rw [← List.head?_drop]
  cases rest : (items.filter kept).drop index with
  | nil => rfl
  | cons item others =>
    have member : item ∈ items.filter kept :=
      List.mem_of_mem_drop (rest ▸ List.mem_cons_self)
    rw [List.find?_cons_of_pos (List.mem_filter.mp member).2, List.head?_cons]

/-- Setting an entry of a table and compacting it. -/
theorem compactTable_set {items : List α} {table : List β} {index : Nat} {item : α}
    (found : items[index]? = some item) (keeps : kept item) (entry : β) :
    compactTable kept items (table.set index entry) =
      (compactTable kept items table).set (rank kept items index) entry := by
  induction items generalizing table index with
  | nil => cases found
  | cons head items more =>
    cases table with
    | nil => simp [compactTable]
    | cons old table =>
      cases index with
      | zero =>
        obtain rfl : head = item := by simpa using found
        simp [compactTable, keeps]
      | succ index =>
        have step := @more table index (by simpa using found)
        rw [compactTable, compactTable] at step
        rw [rank_cons_succ, List.set_cons_succ, compactTable, compactTable, List.zip_cons_cons,
          List.zip_cons_cons, List.filter_cons, List.filter_cons]
        cases keepsHead : kept head with
        | true =>
          simp only [if_true, List.map_cons, List.set_cons_succ, step]
        | false => simpa using step

/-- An empty table stays empty. -/
theorem compactTable_replicate (items : List α) (entry : β) :
    compactTable kept items (List.replicate items.length entry) =
      List.replicate (items.filter kept).length entry := by
  induction items with
  | nil => rfl
  | cons item items more =>
    rw [compactTable] at more
    rw [List.length_cons, List.replicate_succ, compactTable, List.zip_cons_cons,
      List.filter_cons, List.filter_cons]
    cases kept item with
    | true => simp only [if_true, List.map_cons, List.length_cons, List.replicate_succ, more]
    | false => simpa using more

/-- A table beside kept items only stays whole. -/
theorem compactTable_all {items : List α} {table : List β} (all : ∀ item ∈ items, kept item)
    (length : table.length = items.length) : compactTable kept items table = table := by
  have whole : (items.zip table).filter (fun entry => kept entry.1) = items.zip table := by
    rw [List.filter_eq_self]
    exact fun entry member => all entry.1 (List.of_mem_zip member).1
  rw [compactTable, whole, List.map_snd_zip (Nat.le_of_eq length)]

/-- Filling a table beside a list and compacting it. -/
theorem compactTable_foldl_set {γ : Type} {items : List α} {entries : List γ} {place : γ → Nat}
    (found : ∀ entry ∈ entries, ∃ item, items[place entry]? = some item ∧ kept item)
    (value : γ → β) (table : List β) :
    compactTable kept items
        (entries.foldl (fun table entry => table.set (place entry) (value entry)) table) =
      entries.foldl (fun table entry => table.set (rank kept items (place entry)) (value entry))
        (compactTable kept items table) := by
  induction entries generalizing table with
  | nil => rfl
  | cons entry entries more =>
    obtain ⟨item, here, keeps⟩ := found entry List.mem_cons_self
    rw [List.foldl_cons, List.foldl_cons,
      more fun other member => found other (List.mem_cons_of_mem _ member),
      compactTable_set here keeps]

end Bethkit.Lib
