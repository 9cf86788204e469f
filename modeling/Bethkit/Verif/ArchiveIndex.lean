import Bethkit.Archive.Types

/-!
# The index of an archive

Entries are put into the index one after the other, so a path leads to the last entry that has it.
-/

namespace Bethkit

/-- An entry is the last one with a path. -/
def IsLastWith (entries : List ArchiveEntry) (path : Bytes) (idx : Nat) : Prop :=
  (entries.map ArchiveEntry.path)[idx]? = some path ∧
    ∀ later, idx < later → (entries.map ArchiveEntry.path)[later]? ≠ some path

/-- One more entry is put into the index behind the others. -/
theorem indexEntries_concat (entries : List ArchiveEntry) (entry : ArchiveEntry) :
    indexEntries (entries ++ [entry]) =
      (indexEntries entries).insert entry.path entries.length := by
  rw [indexEntries, List.zipIdx_append, List.foldl_append, Nat.zero_add]
  rfl

/-- The last entry with a path among one more. -/
theorem isLastWith_concat {entries : List ArchiveEntry} {entry : ArchiveEntry} {path : Bytes}
    {idx : Nat} : IsLastWith (entries ++ [entry]) path idx ↔
      if entry.path = path then idx = entries.length else IsLastWith entries path idx := by
  have length : (entries.map ArchiveEntry.path).length = entries.length := List.length_map _
  have last : ((entries ++ [entry]).map ArchiveEntry.path)[entries.length]? = some entry.path := by
    rw [List.map_append, List.getElem?_append_right (by omega), length, Nat.sub_self]
    rfl
  have before {place : Nat} (inside : place < entries.length) :
      ((entries ++ [entry]).map ArchiveEntry.path)[place]? =
        (entries.map ArchiveEntry.path)[place]? := by
    rw [List.map_append, List.getElem?_append_left (by omega)]
  have behind {place : Nat} (outside : entries.length < place) :
      ((entries ++ [entry]).map ArchiveEntry.path)[place]? = none := by
    rw [List.getElem?_eq_none_iff, List.length_map, List.length_append, List.length_singleton]
    omega
  have none {place : Nat} (outside : entries.length ≤ place) :
      (entries.map ArchiveEntry.path)[place]? = none := by
    rw [List.getElem?_eq_none_iff, length]
    exact outside
  unfold IsLastWith
  by_cases same : entry.path = path
  · rw [if_pos same]
    constructor
    · rintro ⟨found, final⟩
      rcases Nat.lt_trichotomy idx entries.length with early | here | late
      · exact absurd (same ▸ last) (final _ early)
      · exact here
      · rw [behind late] at found
        exact absurd found.symm (Option.some_ne_none _)
    · rintro rfl
      refine ⟨same ▸ last, fun later after => ?_⟩
      rw [behind after]
      exact (Option.some_ne_none _).symm
  · rw [if_neg same]
    constructor
    · rintro ⟨found, final⟩
      rcases Nat.lt_trichotomy idx entries.length with early | here | late
      · refine ⟨before early ▸ found, fun later after => ?_⟩
        by_cases inside : later < entries.length
        · exact before inside ▸ final later after
        · rw [none (Nat.le_of_not_lt inside)]
          exact (Option.some_ne_none _).symm
      · rw [here, last] at found
        exact absurd (Option.some.inj found) same
      · rw [behind late] at found
        exact absurd found.symm (Option.some_ne_none _)
    · rintro ⟨found, final⟩
      have inside : idx < entries.length := by
        obtain ⟨bound, _⟩ := List.getElem?_eq_some_iff.mp found
        omega
      refine ⟨(before inside).trans found, fun later after => ?_⟩
      rcases Nat.lt_trichotomy later entries.length with early | here | late
      · rw [before early]
        exact final later after
      · rw [here, last]
        exact fun equal => same (Option.some.inj equal)
      · rw [behind late]
        exact (Option.some_ne_none _).symm

/-- A path leads to the last entry that has it. -/
theorem getElem?_indexEntries {entries : List ArchiveEntry} {path : Bytes} {idx : Nat} :
    (indexEntries entries)[path]? = some idx ↔ IsLastWith entries path idx := by
  induction entries using List.reverseRecOn with
  | nil => simp [indexEntries, IsLastWith]
  | append_singleton entries entry ih =>
    rw [indexEntries_concat, Std.HashMap.getElem?_insert, isLastWith_concat]
    by_cases same : entry.path = path
    · rw [if_pos (beq_iff_eq.mpr same), if_pos same, Option.some_inj]
      exact eq_comm
    · rw [if_neg (fun equal => same (beq_iff_eq.mp equal)), if_neg same]
      exact ih

end Bethkit
