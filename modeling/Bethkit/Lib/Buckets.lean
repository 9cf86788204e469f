import Mathlib

/-!
# A table with buckets

A main table gives every key a value, and a second table lists for every class of values the keys
whose value has it. Replacing the value of a key takes the key out of the bucket of its old class
and puts it into that of its new class.
-/

namespace Bethkit.Lib

variable {κ σ ν : Type} [DecidableEq σ]

/-- The keys of a class. -/
def bucket (buckets : AList fun _ : σ => List κ) (label : σ) : List κ :=
  (buckets.lookup label).getD []

/-- A bucket that was just written. -/
@[simp]
theorem bucket_insert_self (buckets : AList fun _ : σ => List κ) (label : σ) (keys : List κ) :
    bucket (buckets.insert label keys) label = keys := by
  rw [bucket, AList.lookup_insert, Option.getD_some]

/-- Writing a bucket leaves the others. -/
theorem bucket_insert_ne (buckets : AList fun _ : σ => List κ) {label other : σ}
    (apart : other ≠ label) (keys : List κ) :
    bucket (buckets.insert label keys) other = bucket buckets other := by
  rw [bucket, AList.lookup_insert_ne apart, bucket]

section Update

variable [DecidableEq κ]

/-- The buckets without a key: only the bucket of its old class is written. -/
def withoutKey (label : ν → σ) (main : AList fun _ : κ => ν) (buckets : AList fun _ : σ => List κ)
    (key : κ) : AList fun _ : σ => List κ :=
  match main.lookup key with
  | some old =>
    match buckets.lookup (label old) with
    | some keys => buckets.insert (label old) (keys.filter (· ≠ key))
    | none => buckets
  | none => buckets

/-- The buckets after the value of a key is replaced. -/
def rebucket (label : ν → σ) (main : AList fun _ : κ => ν) (buckets : AList fun _ : σ => List κ)
    (key : κ) (value : ν) : AList fun _ : σ => List κ :=
  (withoutKey label main buckets key).insert (label value)
    (bucket (withoutKey label main buckets key) (label value) ++ [key])

end Update

/-- Every bucket has exactly the keys whose value has its class, each of them once. -/
structure Classified [DecidableEq κ] (label : ν → σ) (main : AList fun _ : κ => ν)
    (buckets : AList fun _ : σ => List κ) : Prop where
  /-- No key stands in a bucket twice. -/
  nodup : ∀ wanted, (bucket buckets wanted).Nodup
  /-- A key stands in the bucket of the class of its value. -/
  mem : ∀ wanted key, key ∈ bucket buckets wanted ↔
    ∃ value, main.lookup key = some value ∧ label value = wanted

namespace Classified

variable [DecidableEq κ] {label : ν → σ} {main : AList fun _ : κ => ν} {buckets : AList fun _ : σ => List κ}

/-- Empty tables are classified. -/
theorem empty : Classified label (∅ : AList fun _ : κ => ν) (∅ : AList fun _ : σ => List κ) where
  nodup _ := List.nodup_nil
  mem _ key := by simp [bucket, AList.lookup_empty]

/-- Taking a key out of the bucket of its class takes it out of all buckets. -/
theorem bucket_withoutKey (classified : Classified label main buckets) (key : κ) (wanted : σ) :
    bucket (withoutKey label main buckets key) wanted =
      (bucket buckets wanted).filter (· ≠ key) := by
  have absent (other : key ∉ bucket buckets wanted) :
      bucket buckets wanted = (bucket buckets wanted).filter (· ≠ key) := by
    refine (List.filter_eq_self.mpr fun found among => ?_).symm
    exact decide_eq_true fun same => other (same ▸ among)
  cases stored : main.lookup key with
  | none =>
    have same : withoutKey label main buckets key = buckets := by simp only [withoutKey, stored]
    rw [same]
    refine absent fun among => ?_
    obtain ⟨value, found, -⟩ := (classified.mem wanted key).mp among
    exact absurd (stored.symm.trans found) (by simp)
  | some old =>
    cases listed : buckets.lookup (label old) with
    | none =>
      have among := (classified.mem (label old) key).mpr ⟨old, stored, rfl⟩
      rw [bucket, listed] at among
      exact absurd among List.not_mem_nil
    | some keys =>
      have written : withoutKey label main buckets key =
          buckets.insert (label old) (keys.filter (· ≠ key)) := by
        simp only [withoutKey, stored, listed]
      rw [written]
      by_cases same : wanted = label old
      · subst same
        rw [bucket_insert_self, bucket, listed, Option.getD_some]
      · rw [bucket_insert_ne buckets same]
        refine absent fun among => ?_
        obtain ⟨value, found, typed⟩ := (classified.mem wanted key).mp among
        obtain rfl := Option.some.inj (stored.symm.trans found)
        exact same typed.symm

/-- Replacing the value of a key keeps the tables classified. -/
theorem rebucket (classified : Classified label main buckets) (key : κ) (value : ν) :
    Classified label (main.insert key value) (rebucket label main buckets key value) := by
  have fresh : key ∉ (bucket buckets (label value)).filter (· ≠ key) := by simp
  refine ⟨fun wanted => ?_, fun wanted other => ?_⟩
  · rw [Lib.rebucket]
    by_cases same : wanted = label value
    · subst same
      rw [bucket_insert_self, classified.bucket_withoutKey]
      exact ((classified.nodup _).filter _).append (List.nodup_singleton key)
        (List.disjoint_singleton.mpr fresh)
    · rw [bucket_insert_ne _ same, classified.bucket_withoutKey]
      exact (classified.nodup wanted).filter _
  · rw [Lib.rebucket]
    by_cases self : other = key
    · subst self
      rw [AList.lookup_insert]
      by_cases same : wanted = label value
      · subst same
        simp
      · rw [bucket_insert_ne _ same, classified.bucket_withoutKey]
        constructor
        · exact fun among => absurd rfl (of_decide_eq_true (List.mem_filter.mp among).2)
        · rintro ⟨_, found, typed⟩
          exact absurd (typed.symm.trans (congrArg label (Option.some.inj found).symm)) same
    · have kept : other ∈ (bucket buckets wanted).filter (· ≠ key) ↔
          other ∈ bucket buckets wanted := by simp [self]
      rw [AList.lookup_insert_ne self, ← classified.mem wanted other]
      by_cases same : wanted = label value
      · subst same
        rw [bucket_insert_self, classified.bucket_withoutKey, List.mem_append, kept]
        simp [self]
      · rw [bucket_insert_ne _ same, classified.bucket_withoutKey, kept]

end Classified

end Bethkit.Lib
