import Mathlib

/-!
# Chunks of a fixed size

A list is cut into chunks of a size; what is left over is dropped. Pieces of that size that are put
together are cut apart again. The last position of an item of some kind, and what is left of a list
without the items of another kind at its end, are one and the same cut.
-/

namespace Bethkit.Lib

variable {α : Type}

/-- The chunks of a size, without what is left over. -/
def asChunks (size : Nat) (items : List α) : List (List α) :=
  (List.range (items.length / size)).map fun index => (items.drop (index * size)).take size

/-- The last position of an item of some kind. -/
def rposition (kind : α → Bool) (items : List α) : Option Nat :=
  (items.reverse.findIdx? kind).map fun behind => items.length - 1 - behind

/-- The first piece is the first chunk. -/
theorem asChunks_append {size : Nat} (positive : 0 < size) {piece : List α}
    (sized : piece.length = size) (rest : List α) :
    asChunks size (piece ++ rest) = piece :: asChunks size rest := by
  have count : (piece ++ rest).length / size = rest.length / size + 1 := by
    rw [List.length_append, sized, Nat.add_comm, Nat.add_div_right _ positive]
  rw [asChunks, count, List.range_succ_eq_map, List.map_cons, List.map_map]
  congr 1
  · rw [Nat.zero_mul, List.drop_zero, ← sized, List.take_left]
  · apply List.map_congr_left
    intro index _
    have behind : (index + 1) * size = piece.length + index * size := by
      rw [sized]
      ring
    simp only [Function.comp, behind, List.drop_append, Nat.add_sub_cancel_left,
      List.drop_eq_nil_of_le (Nat.le_add_right piece.length (index * size)), List.nil_append]

/-- Pieces that are put together are cut apart again. -/
theorem asChunks_flatten {size : Nat} (positive : 0 < size) {pieces : List (List α)}
    (sized : ∀ piece ∈ pieces, piece.length = size) : asChunks size pieces.flatten = pieces := by
  induction pieces with
  | nil => simp [asChunks]
  | cons piece pieces ih =>
    rw [List.flatten_cons, asChunks_append positive (sized piece List.mem_cons_self),
      ih fun other found => sized other (List.mem_cons_of_mem _ found)]

/-- A list of a multiple of the size consists of pieces. -/
theorem exists_pieces {size count : Nat} {items : List α} (length : items.length = count * size) :
    ∃ pieces : List (List α), pieces.flatten = items ∧ ∀ piece ∈ pieces, piece.length = size := by
  induction count generalizing items with
  | zero =>
    have empty : items = [] := List.length_eq_zero_iff.mp (length.trans (Nat.zero_mul size))
    exact ⟨[], empty.symm, fun piece found => absurd found List.not_mem_nil⟩
  | succ count ih =>
    rw [Nat.succ_mul] at length
    have behind : (items.drop size).length = count * size := by
      rw [List.length_drop]
      omega
    obtain ⟨pieces, joined, sized⟩ := ih behind
    refine ⟨items.take size :: pieces, ?_, ?_⟩
    · rw [List.flatten_cons, joined, List.take_append_drop]
    · intro piece found
      rcases List.mem_cons.mp found with first | later
      · rw [first, List.length_take]
        omega
      · exact sized piece later

/-- The chunks of a list of a multiple of the size are the list again, and all have the size. -/
theorem flatten_asChunks {size : Nat} (positive : 0 < size) {items : List α}
    (divides : items.length % size = 0) :
    (asChunks size items).flatten = items ∧ ∀ chunk ∈ asChunks size items, chunk.length = size := by
  have length : items.length = items.length / size * size :=
    (Nat.div_mul_cancel (Nat.dvd_of_mod_eq_zero divides)).symm
  obtain ⟨pieces, joined, sized⟩ := exists_pieces length
  have chunks : asChunks size items = pieces := by
    rw [← joined, asChunks_flatten positive sized]
  rw [chunks]
  exact ⟨joined, sized⟩

/-- The number of chunks. -/
@[simp]
theorem length_asChunks (size : Nat) (items : List α) :
    (asChunks size items).length = items.length / size := by
  simp [asChunks]

/-- The last position in a longer list. -/
theorem rposition_concat (kind : α → Bool) (items : List α) (item : α) :
    rposition kind (items ++ [item]) =
      if kind item then some items.length else rposition kind items := by
  rw [rposition, List.reverse_append, List.reverse_singleton, List.singleton_append,
    List.findIdx?_cons]
  by_cases found : kind item = true
  · simp [found]
  · rw [if_neg found, if_neg found, rposition, Option.map_map]
    congr 1
    funext behind
    simp only [Function.comp, List.length_append, List.length_singleton]
    omega

/-- Behind the last item of a kind stand the items that are not of the kind: they are what is
dropped. -/
theorem rposition_eq_length (kind : α → Bool) (items : List α) :
    ((rposition kind items).map (· + 1)).getD 0 = (items.rdropWhile fun item => !kind item).length := by
  induction items using List.reverseRecOn with
  | nil => rfl
  | append_singleton items item ih =>
    rw [rposition_concat]
    by_cases found : kind item = true
    · rw [if_pos found, List.rdropWhile_concat_neg _ _ _ (by simp [found])]
      simp
    · rw [if_neg found, ih, List.rdropWhile_concat_pos _ _ _ (by simp [found])]

/-- What is left without the items at the end is the front of the list. -/
theorem take_length_rdropWhile (dropped : α → Bool) (items : List α) :
    items.take (items.rdropWhile dropped).length = items.rdropWhile dropped :=
  (List.prefix_iff_eq_take.mp (List.rdropWhile_prefix dropped items)).symm

end Bethkit.Lib

/-!
## Runs of items

A file that stores items one behind the other has one run for each item. The run of an item stands
behind the runs of the items before it, and runs of one width stand at multiples of it.
-/

namespace Bethkit.Lib

variable {α β : Type} {run : α → List β}

/-- The run of an item stands between the runs of the items before it and behind it. -/
theorem flatMap_split (run : α → List β) {items : List α} {index : Nat}
    (inside : index < items.length) :
    items.flatMap run = (items.take index).flatMap run ++ (run items[index] ++
      (items.drop (index + 1)).flatMap run) := by
  rw [← List.flatMap_cons, List.getElem_cons_drop, ← List.flatMap_append, List.take_append_drop]

/-- The length of runs of one width. -/
theorem length_flatMap_of_width {width : Nat} (sized : ∀ item, (run item).length = width)
    (items : List α) : (items.flatMap run).length = width * items.length := by
  induction items with
  | nil => rfl
  | cons item items rest =>
    rw [List.flatMap_cons, List.length_append, sized, rest, List.length_cons]
    exact (Nat.mul_succ _ _ ▸ Nat.add_comm _ _)

/-- A run of one width stands at a multiple of the width. -/
theorem take_drop_flatMap {width : Nat} (sized : ∀ item, (run item).length = width)
    {items : List α} {index : Nat} (inside : index < items.length) (rest : List β) :
    ((items.flatMap run ++ rest).drop (width * index)).take width = run items[index] := by
  have before : ((items.take index).flatMap run).length = width * index := by
    rw [length_flatMap_of_width sized, List.length_take, Nat.min_eq_left (Nat.le_of_lt inside)]
  rw [flatMap_split run inside, List.append_assoc, ← before, List.drop_left, List.append_assoc,
    ← sized items[index], List.take_left]

end Bethkit.Lib
