import Bethkit.Lib.Placement

/-!
# Placing the same elements in another order

Placements of elements with different parents commute. A sequence may therefore be placed in another
order with the same result, as long as parents come first, what goes to the end keeps its order, and
no two elements compete for the place behind one parent or for the front. Two that compete end up in
the reverse order of their placement.
-/

namespace Bethkit.Lib

section

variable {α : Type} [DecidableEq α]

/-- Placements behind different targets commute. -/
theorem insertBehind_comm {first second x y : α} {list : List α} (targets : first ≠ second)
    (notFirst : y ≠ first) (notSecond : x ≠ second) :
    insertBehind second y (insertBehind first x list) =
      insertBehind first x (insertBehind second y list) := by
  induction list with
  | nil => rfl
  | cons head list rest =>
    by_cases here : head = first
    · subst here
      rw [insertBehind_self, insertBehind_cons_of_ne targets, insertBehind_cons_of_ne targets,
        insertBehind_cons_of_ne notSecond, insertBehind_self]
    · rw [insertBehind_cons_of_ne here]
      by_cases there : head = second
      · subst there
        rw [insertBehind_self, insertBehind_self, insertBehind_cons_of_ne here,
          insertBehind_cons_of_ne notFirst]
      · rw [insertBehind_cons_of_ne there, insertBehind_cons_of_ne there,
          insertBehind_cons_of_ne here, rest]

namespace Placement

variable (placement : Placement α)

/-- Two elements compete for the place behind one parent or for the front. -/
def Rivals (x y : α) : Prop :=
  (∃ parent, placement.parent x = some parent ∧ placement.parent y = some parent) ∨
    (placement.parent x = none ∧ placement.parent y = none ∧
      placement.front x = true ∧ placement.front y = true)

/-- An element goes to the end. -/
def last (x : α) : Bool := (placement.parent x).isNone && !placement.front x

variable {placement}

/-- Placements of two elements commute if they are not rivals and do not both go to the end. -/
theorem attach_comm {ordered : List α} {x y : α} (readyX : placement.Ready ordered x)
    (readyY : placement.Ready ordered y) (apart : ¬placement.Rivals x y)
    (ends : ¬(placement.last x = true ∧ placement.last y = true)) :
    placement.attach (placement.attach ordered x) y =
      placement.attach (placement.attach ordered y) x := by
  unfold attach
  cases aboveX : placement.parent x with
  | some p =>
    have notP : y ≠ p := fun same => readyY.1 (same ▸ readyX.2 p aboveX)
    cases aboveY : placement.parent y with
    | some q =>
      have targets : p ≠ q := fun same => apart (Or.inl ⟨p, aboveX, same ▸ aboveY⟩)
      have notQ : x ≠ q := fun same => readyX.1 (same ▸ readyY.2 q aboveY)
      exact insertBehind_comm targets notP notQ
    | none =>
      dsimp only
      by_cases front : placement.front y = true
      · rw [if_pos front, if_pos front, insertBehind_cons_of_ne notP]
      · rw [if_neg front, if_neg front, insertBehind_append_left (readyX.2 p aboveX)]
  | none =>
    cases aboveY : placement.parent y with
    | some q =>
      have notQ : x ≠ q := fun same => readyX.1 (same ▸ readyY.2 q aboveY)
      dsimp only
      by_cases front : placement.front x = true
      · rw [if_pos front, if_pos front, insertBehind_cons_of_ne notQ]
      · rw [if_neg front, if_neg front, insertBehind_append_left (readyY.2 q aboveY)]
    | none =>
      dsimp only
      by_cases frontX : placement.front x = true
      · by_cases frontY : placement.front y = true
        · exact absurd (Or.inr ⟨aboveX, aboveY, frontX, frontY⟩) apart
        · rw [if_pos frontX, if_neg frontY, if_neg frontY, if_pos frontX, List.cons_append]
      · by_cases frontY : placement.front y = true
        · rw [if_neg frontX, if_pos frontY, if_pos frontY, if_neg frontX, List.cons_append]
        · exact absurd ⟨by simp [last, aboveX, frontX], by simp [last, aboveY, frontY]⟩ ends

omit [DecidableEq α] in
/-- Whether an element can be placed depends on the placed elements only. -/
theorem ready_congr {first second : List α} (same : ∀ x, x ∈ first ↔ x ∈ second) {x : α} :
    placement.Ready first x ↔ placement.Ready second x := by
  unfold Ready
  rw [same]
  simp only [same]

/-- Whether a sequence is orderly depends on the placed elements only. -/
theorem orderly_congr {first second sequence : List α} (same : ∀ x, x ∈ first ↔ x ∈ second) :
    placement.Orderly first sequence ↔ placement.Orderly second sequence := by
  induction sequence generalizing first second with
  | nil => exact Iff.rfl
  | cons x sequence rest =>
    rw [Orderly, Orderly, ready_congr same]
    apply and_congr_right
    intro ready
    apply rest
    intro y
    rw [(placement.attach_perm ((ready_congr same).mpr ready)).mem_iff,
      (placement.attach_perm ready).mem_iff, List.mem_cons, List.mem_cons, same]

/-- A sequence is orderly after an element that is ready. -/
theorem orderly_cons {ordered sequence : List α} {x : α} (ready : placement.Ready ordered x) :
    placement.Orderly (placement.attach ordered x) sequence ↔
      placement.Orderly (x :: ordered) sequence :=
  orderly_congr fun _ => (placement.attach_perm ready).mem_iff

/-- In an orderly sequence every element is new, and its parent has been placed or comes earlier. -/
theorem orderly_iff {ordered sequence : List α} : placement.Orderly ordered sequence ↔
    ∀ before x after, sequence = before ++ x :: after → x ∉ ordered ∧ x ∉ before ∧
      ∀ parent, placement.parent x = some parent → parent ∈ ordered ∨ parent ∈ before := by
  induction sequence generalizing ordered with
  | nil =>
    constructor
    · intro _ before x after split
      simp at split
    · intro _
      trivial
  | cons y sequence rest =>
    rw [Orderly]
    constructor
    · intro orderly before x after split
      obtain ⟨ready, orderly⟩ := orderly
      rw [orderly_cons ready] at orderly
      cases before with
      | nil =>
        cases split
        exact ⟨ready.1, List.not_mem_nil, fun parent above => Or.inl (ready.2 parent above)⟩
      | cons z before =>
        cases split
        obtain ⟨fresh, later, parents⟩ := rest.mp orderly before x after rfl
        rw [List.mem_cons, not_or] at fresh
        refine ⟨fresh.2, ?_, ?_⟩
        · rw [List.mem_cons, not_or]
          exact ⟨fresh.1, later⟩
        · intro parent above
          rcases parents parent above with among | among
          · rcases List.mem_cons.mp among with same | among
            · exact Or.inr (same ▸ List.mem_cons_self)
            · exact Or.inl among
          · exact Or.inr (List.mem_cons_of_mem _ among)
    · intro each
      have own := each [] y sequence rfl
      have ready : placement.Ready ordered y := by
        refine ⟨own.1, ?_⟩
        intro parent above
        rcases own.2.2 parent above with among | among
        · exact among
        · cases among
      refine ⟨ready, ?_⟩
      rw [orderly_cons ready, rest]
      intro before x after split
      obtain ⟨fresh, later, parents⟩ := each (y :: before) x after (by rw [split]; rfl)
      rw [List.mem_cons, not_or] at later
      refine ⟨?_, later.2, ?_⟩
      · rw [List.mem_cons, not_or]
        exact ⟨later.1, fresh⟩
      · intro parent above
        rcases parents parent above with among | among
        · exact Or.inl (List.mem_cons_of_mem _ among)
        · rcases List.mem_cons.mp among with same | among
          · exact Or.inl (same ▸ List.mem_cons_self)
          · exact Or.inr among

/-- The elements of an orderly sequence are distinct and new. -/
theorem Orderly.nodup {ordered sequence : List α} (orderly : placement.Orderly ordered sequence) :
    sequence.Nodup ∧ ∀ x ∈ sequence, x ∉ ordered := by
  constructor
  · induction sequence generalizing ordered with
    | nil => exact List.nodup_nil
    | cons x sequence rest =>
      apply List.nodup_cons.mpr
      refine ⟨?_, rest orderly.2⟩
      intro again
      obtain ⟨before, after, rfl⟩ := List.append_of_mem again
      exact (orderly_iff.mp orderly (x :: before) x after rfl).2.1 List.mem_cons_self
  · intro x among
    obtain ⟨before, after, rfl⟩ := List.append_of_mem among
    exact (orderly_iff.mp orderly before x after rfl).1

/-- An element that is ready from the start may be placed first. -/
theorem attachAll_moveFirst {ordered before : List α} {x : α} (ready : placement.Ready ordered x)
    (orderly : placement.Orderly ordered (before ++ [x]))
    (apart : ∀ y ∈ before, ¬placement.Rivals y x)
    (ends : ∀ y ∈ before, ¬(placement.last y = true ∧ placement.last x = true)) :
    placement.attachAll ordered (before ++ [x]) =
      placement.attachAll (placement.attach ordered x) before := by
  induction before generalizing ordered with
  | nil => rfl
  | cons y before rest =>
    have distinct := orderly.nodup
    have fresh : x ∉ y :: before := by
      intro among
      exact (List.nodup_append.mp distinct.1).2.2 x among x (List.mem_singleton.mpr rfl) rfl
    rw [List.mem_cons, not_or] at fresh
    have readyY : placement.Ready ordered y := orderly.1
    have readyNext : placement.Ready (placement.attach ordered y) x := by
      have elements := fun z => (placement.attach_perm readyY).mem_iff (a := z)
      refine ⟨?_, ?_⟩
      · rw [elements, List.mem_cons, not_or]
        exact ⟨fresh.1, ready.1⟩
      · intro parent above
        rw [elements]
        exact List.mem_cons_of_mem _ (ready.2 parent above)
    have later := rest readyNext orderly.2
      (fun z among => apart z (List.mem_cons_of_mem _ among))
      (fun z among => ends z (List.mem_cons_of_mem _ among))
    have swap := attach_comm readyY ready (apart y List.mem_cons_self) (ends y List.mem_cons_self)
    show placement.attachAll (placement.attach ordered y) (before ++ [x]) =
      placement.attachAll (placement.attach (placement.attach ordered x) y) before
    rw [later, swap]

/-- Placing one sequence after the other. -/
theorem attachAll_append (ordered first second : List α) :
    placement.attachAll ordered (first ++ second) =
      placement.attachAll (placement.attachAll ordered first) second :=
  List.foldl_append

/-- A sequence stays orderly when one of its elements has been placed before. -/
theorem orderly_moveFirst {ordered before after : List α} {x : α}
    (orderly : placement.Orderly ordered (before ++ x :: after)) :
    placement.Orderly (x :: ordered) (before ++ after) := by
  have fresh : x ∉ before := (orderly_iff.mp orderly before x after rfl).2.1
  obtain ⟨front, back⟩ := orderly_append.mp orderly
  have frontLater : placement.Orderly (x :: ordered) before := by
    rw [orderly_iff] at front ⊢
    intro first y others split
    obtain ⟨new, once, parents⟩ := front first y others split
    refine ⟨?_, once, ?_⟩
    · rw [List.mem_cons, not_or]
      refine ⟨?_, new⟩
      intro same
      apply fresh
      rw [split, ← same]
      exact List.mem_append_right _ List.mem_cons_self
    · intro parent above
      rcases parents parent above with among | among
      · exact Or.inl (List.mem_cons_of_mem _ among)
      · exact Or.inr among
  refine orderly_append.mpr ⟨frontLater, (orderly_congr ?_).mp back.2⟩
  intro y
  rw [(placement.attach_perm back.1).mem_iff, List.mem_cons,
    (attachAll_perm front).mem_iff, (attachAll_perm frontLater).mem_iff, List.mem_append,
    List.mem_append, List.mem_cons, or_assoc]

/-- Two orderly sequences of the same elements without rivals lead to the same list if what goes to
the end has the same order in both. -/
theorem attachAll_congr {ordered first second : List α} (orderlyFirst : placement.Orderly ordered first)
    (orderlySecond : placement.Orderly ordered second) (same : first.Perm second)
    (apart : ∀ x ∈ first, ∀ y ∈ first, x ≠ y → ¬placement.Rivals x y)
    (ends : first.filter placement.last = second.filter placement.last) :
    placement.attachAll ordered first = placement.attachAll ordered second := by
  induction second generalizing ordered first with
  | nil =>
    rw [List.perm_nil.mp same]
  | cons x second rest =>
    obtain ⟨before, after, rfl⟩ := List.append_of_mem (same.mem_iff.mpr List.mem_cons_self)
    have ready : placement.Ready ordered x := orderlySecond.1
    have split : before ++ x :: after = (before ++ [x]) ++ after := by simp
    have fresh : x ∉ before := (orderly_iff.mp orderlyFirst before x after rfl).2.1
    have orderly := orderlyFirst
    rw [split] at orderly
    obtain ⟨orderlyBefore, orderlyAfter⟩ := orderly_append.mp orderly
    -- Nothing that goes to the end comes before the first element that does.
    have noEnds : placement.last x = true → before.filter placement.last = [] := by
      intro isLast
      rw [List.filter_append, List.filter_cons_of_pos isLast, List.filter_cons_of_pos isLast] at ends
      cases early : before.filter placement.last with
      | nil => rfl
      | cons y others =>
        rw [early, List.cons_append, List.cons.injEq] at ends
        have among : y ∈ before.filter placement.last := by
          rw [early]
          exact List.mem_cons_self
        exact absurd (ends.1 ▸ (List.mem_filter.mp among).1) fresh
    have moved : placement.attachAll ordered (before ++ [x]) =
        placement.attachAll (placement.attach ordered x) before := by
      apply attachAll_moveFirst ready orderlyBefore
      · intro y among
        have differs : y ≠ x := fun same => fresh (same ▸ among)
        exact apart y (List.mem_append_left _ among) x
          (List.mem_append_right _ List.mem_cons_self) differs
      · intro y among both
        have none := noEnds both.2
        have kept := List.mem_filter.mpr ⟨among, both.1⟩
        rw [none] at kept
        cases kept
    have orderlyRest : placement.Orderly (placement.attach ordered x) (before ++ after) := by
      rw [orderly_cons ready]
      exact orderly_moveFirst orderlyFirst
    rw [split, attachAll_append, moved, ← attachAll_append]
    apply rest orderlyRest orderlySecond.2
    · exact (List.perm_cons x).mp (List.perm_middle.symm.trans same)
    · intro y amongY z amongZ
      have keep : ∀ w ∈ before ++ after, w ∈ before ++ x :: after := by
        intro w among
        rcases List.mem_append.mp among with among | among
        · exact List.mem_append_left _ among
        · exact List.mem_append_right _ (List.mem_cons_of_mem _ among)
      exact apart y (keep y amongY) z (keep z amongZ)
    · by_cases isLast : placement.last x = true
      · rw [List.filter_append, List.filter_cons_of_pos isLast, List.filter_cons_of_pos isLast,
          noEnds isLast] at ends
        rw [List.filter_append, noEnds isLast]
        exact (List.cons.inj ends).2
      · rw [List.filter_append, List.filter_cons_of_neg isLast, List.filter_cons_of_neg isLast,
          ← List.filter_append] at ends
        exact ends

/-! ## The order of what has been placed -/

/-- A placement keeps the order of the others. -/
theorem sublist_attach (placement : Placement α) (ordered : List α) (x : α) :
    ordered.Sublist (placement.attach ordered x) := by
  have behind : ∀ (target : α) (list : List α), list.Sublist (insertBehind target x list) := by
    intro target list
    induction list with
    | nil => exact .slnil
    | cons head list rest =>
      by_cases here : head = target
      · rw [here, insertBehind_self]
        exact ((List.Sublist.refl list).cons x).cons_cons target
      · rw [insertBehind_cons_of_ne here]
        exact rest.cons_cons head
  unfold attach
  cases placement.parent x with
  | some parent => exact behind parent ordered
  | none =>
    dsimp only
    by_cases front : placement.front x = true
    · rw [if_pos front]
      exact (List.Sublist.refl ordered).cons x
    · rw [if_neg front]
      exact List.sublist_append_left ordered [x]

/-- A sequence of placements keeps the order of the others. -/
theorem sublist_attachAll (ordered sequence : List α) :
    ordered.Sublist (placement.attachAll ordered sequence) := by
  induction sequence generalizing ordered with
  | nil => exact .refl _
  | cons x sequence rest => exact (placement.sublist_attach ordered x).trans (rest _)

/-- What goes to the end stands there in the order of its placement. -/
theorem filter_last_attach (ordered : List α) (x : α) :
    (placement.attach ordered x).filter placement.last =
      ordered.filter placement.last ++ [x].filter placement.last := by
  have notLast : placement.last x = false →
      ordered.filter placement.last ++ [x].filter placement.last =
        ordered.filter placement.last := by
    intro no
    rw [List.filter_cons_of_neg (by simp [no]), List.filter_nil, List.append_nil]
  unfold attach
  cases above : placement.parent x with
  | some parent =>
    have no : placement.last x = false := by simp [last, above]
    have behind : ∀ (list : List α), (insertBehind parent x list).filter placement.last =
        list.filter placement.last := by
      intro list
      induction list with
      | nil => rfl
      | cons head list rest =>
        by_cases here : head = parent
        · rw [here, insertBehind_self, List.filter_cons, List.filter_cons, List.filter_cons, no]
          rfl
        · rw [insertBehind_cons_of_ne here, List.filter_cons, List.filter_cons, rest]
    rw [notLast no]
    exact behind ordered
  | none =>
    dsimp only
    by_cases front : placement.front x = true
    · have no : placement.last x = false := by simp [last, front]
      rw [if_pos front, notLast no, List.filter_cons_of_neg (by simp [no])]
    · rw [if_neg front, List.filter_append]

/-- What goes to the end stands there in the order of the sequence. -/
theorem filter_last_attachAll (ordered sequence : List α) :
    (placement.attachAll ordered sequence).filter placement.last =
      ordered.filter placement.last ++ sequence.filter placement.last := by
  induction sequence generalizing ordered with
  | nil => rw [List.filter_nil, List.append_nil]; rfl
  | cons x sequence rest =>
    have split : x :: sequence = [x] ++ sequence := rfl
    show (placement.attachAll (placement.attach ordered x) sequence).filter placement.last = _
    rw [rest, filter_last_attach, split, List.filter_append, List.append_assoc]

/-- An element placed later than a rival stands before it. -/
theorem rivals_reversed {ordered sequence : List α} {x y : α} (arranged : placement.Arranged ordered)
    (orderly : placement.Orderly ordered sequence) (rivals : placement.Rivals x y)
    (later : [x, y].Sublist sequence) : [y, x].Sublist (placement.attachAll ordered sequence) := by
  -- The second rival is placed into a list with the first.
  have placed : ∀ {list : List α}, placement.Arranged list → placement.Ready list y → x ∈ list →
      [y, x].Sublist (placement.attach list y) := by
    intro list fine ready among
    unfold attach
    rcases rivals with ⟨parent, aboveX, aboveY⟩ | ⟨_, aboveY, _, front⟩
    · rw [aboveY]
      obtain ⟨before, between, after, rfl, _⟩ := fine.follows x among parent aboveX
      have early : parent ∉ before := by
        intro member
        exact (List.nodup_append.mp fine.nodup).2.2 parent member parent List.mem_cons_self rfl
      show [y, x].Sublist (insertBehind parent y _)
      rw [insertBehind_append_right early, insertBehind_self]
      have rest : [x].Sublist (between ++ x :: after) :=
        List.singleton_sublist.mpr (by simp)
      exact List.Sublist.trans ((rest.cons_cons y).cons parent)
        (List.sublist_append_right before _)
    · rw [aboveY]
      dsimp only
      rw [if_pos front]
      exact (List.singleton_sublist.mpr among).cons_cons y
  have second : ∀ {list sequence : List α}, placement.Arranged list →
      placement.Orderly list sequence → x ∈ list → y ∈ sequence →
      [y, x].Sublist (placement.attachAll list sequence) := by
    intro list sequence fine orderly among member
    induction sequence generalizing list with
    | nil => cases member
    | cons z sequence rest =>
      by_cases here : y = z
      · subst here
        exact (placed fine orderly.1 among).trans (sublist_attachAll _ _)
      · have member : y ∈ sequence := by
          rcases List.mem_cons.mp member with same | member
          · exact absurd same here
          · exact member
        have present : x ∈ placement.attach list z :=
          (placement.attach_perm orderly.1).mem_iff.mpr (List.mem_cons_of_mem _ among)
        exact rest (fine.attach orderly.1) orderly.2 present member
  induction sequence generalizing ordered with
  | nil => cases later
  | cons z sequence rest =>
    cases later with
    | cons _ later => exact rest (arranged.attach orderly.1) orderly.2 later
    | cons_cons _ later =>
      have present : x ∈ placement.attach ordered x :=
        (placement.attach_perm orderly.1).mem_iff.mpr List.mem_cons_self
      have final : [y, x].Sublist (placement.attachAll (placement.attach ordered x) sequence) :=
        second (arranged.attach orderly.1) orderly.2 present (List.singleton_sublist.mp later)
      exact final

/-! ## Placing again -/

omit [DecidableEq α] in
/-- One of two elements of a list comes first. -/
theorem pair_sublist_or {list : List α} {x y : α} (amongX : x ∈ list) (amongY : y ∈ list)
    (differ : x ≠ y) : [x, y].Sublist list ∨ [y, x].Sublist list := by
  obtain ⟨before, behind, rfl⟩ := List.append_of_mem amongX
  rcases List.mem_append.mp amongY with early | late
  · apply Or.inr
    exact (List.singleton_sublist.mpr early).append (List.singleton_sublist.mpr List.mem_cons_self)
  · apply Or.inl
    have behind : y ∈ behind := by
      rcases List.mem_cons.mp late with same | behind
      · exact absurd same.symm differ
      · exact behind
    exact ((List.singleton_sublist.mpr behind).cons_cons x).trans
      (List.sublist_append_right before _)

omit [DecidableEq α] in
/-- What stands before an element of a list is in the part before it. -/
theorem mem_of_pair_sublist {before behind : List α} {x y : α}
    (nodup : (before ++ x :: behind).Nodup) (pair : [y, x].Sublist (before ++ x :: behind)) :
    y ∈ before := by
  have once : x ∉ behind := (List.nodup_cons.mp (List.nodup_append.mp nodup).2.1).1
  obtain ⟨first, second, split, inFirst, inSecond⟩ := List.sublist_append_iff.mp pair
  cases first with
  | nil =>
    rw [List.nil_append] at split
    rw [← split] at inSecond
    cases inSecond with
    | cons _ later => exact absurd (later.subset (by simp)) once
    | cons_cons _ later => exact absurd (later.subset (by simp)) once
  | cons head first =>
    have same : y = head := (List.cons.inj split).1
    rw [same]
    exact inFirst.subset List.mem_cons_self

/-- The placed elements of a sequence, in the order in which they ended up. -/
def resorted (placement : Placement α) (ordered sequence : List α) : List α :=
  (placement.attachAll ordered sequence).filter (· ∈ sequence)

/-- The elements are the same. -/
theorem resorted_perm {ordered sequence : List α} (orderly : placement.Orderly ordered sequence) :
    (placement.resorted ordered sequence).Perm sequence := by
  have elements := (attachAll_perm orderly).filter (· ∈ sequence)
  have none : ordered.filter (· ∈ sequence) = [] := by
    apply List.filter_eq_nil_iff.mpr
    intro x among member
    exact orderly.nodup.2 x (of_decide_eq_true member) among
  have all : sequence.filter (· ∈ sequence) = sequence := by
    apply List.filter_eq_self.mpr
    exact fun x among => decide_eq_true among
  rw [List.filter_append, none, all, List.nil_append] at elements
  exact elements

/-- In the order in which they ended up, parents come first. -/
theorem orderly_resorted {ordered sequence : List α} (arranged : placement.Arranged ordered)
    (orderly : placement.Orderly ordered sequence) :
    placement.Orderly ordered (placement.resorted ordered sequence) := by
  have after := arranged.attachAll orderly
  have distinct : (placement.resorted ordered sequence).Nodup := after.nodup.filter _
  rw [orderly_iff]
  intro before x behind split
  have among : x ∈ placement.resorted ordered sequence := by
    rw [split]
    exact List.mem_append_right _ List.mem_cons_self
  obtain ⟨placed, member⟩ := List.mem_filter.mp among
  have member : x ∈ sequence := of_decide_eq_true member
  refine ⟨orderly.nodup.2 x member, ?_, ?_⟩
  · intro early
    rw [split] at distinct
    exact (List.nodup_append.mp distinct).2.2 x early x List.mem_cons_self rfl
  · intro parent above
    by_cases old : parent ∈ ordered
    · exact Or.inl old
    · obtain ⟨present, earlier⟩ := after.idxOf_lt placed above
      have fresh : parent ∈ sequence := by
        have elements := (attachAll_perm orderly).mem_iff.mp present
        exact (List.mem_append.mp elements).resolve_left old
      obtain ⟨front, between, back, same, _⟩ := after.follows x placed parent above
      have pair : [parent, x].Sublist (placement.attachAll ordered sequence) := by
        rw [same]
        have rest : [x].Sublist (between ++ x :: back) := List.singleton_sublist.mpr (by simp)
        exact (rest.cons_cons parent).trans (List.sublist_append_right front _)
      have kept : [parent, x].Sublist (placement.resorted ordered sequence) := by
        have both : [parent, x].filter (· ∈ sequence) = [parent, x] := by simp [fresh, member]
        rw [← both]
        exact pair.filter _
      rw [split] at kept distinct
      exact Or.inr (mem_of_pair_sublist distinct kept)

/-- Placing again in the order in which a sequence ended up leads to the same order of some elements
with those of the sequence among them if and only if no two elements of the sequence are rivals. -/
theorem attachAll_resorted_iff {ordered sequence : List α} (arranged : placement.Arranged ordered)
    (orderly : placement.Orderly ordered sequence) {keep : α → Bool}
    (kept : ∀ x ∈ sequence, keep x = true) :
    (placement.attachAll ordered (placement.resorted ordered sequence)).filter keep =
        (placement.attachAll ordered sequence).filter keep ↔
      ∀ x ∈ sequence, ∀ y ∈ sequence, x ≠ y → ¬placement.Rivals x y := by
  have again := orderly_resorted arranged orderly
  constructor
  · intro same x amongX y amongY differ rivals
    have nodup : ((placement.attachAll ordered sequence).filter keep).Nodup :=
      (arranged.attachAll orderly).nodup.filter keep
    have contradiction : ∀ x ∈ sequence, ∀ y ∈ sequence, x ≠ y → placement.Rivals x y →
        ¬[x, y].Sublist sequence := by
      intro x amongX y amongY differ rivals pair
      have reversed := rivals_reversed arranged orderly rivals pair
      have ended : [y, x].Sublist (placement.resorted ordered sequence) := by
        have both : [y, x].filter (· ∈ sequence) = [y, x] := by simp [amongX, amongY]
        rw [← both]
        exact reversed.filter _
      have swapped : placement.Rivals y x := by
        rcases rivals with ⟨parent, aboveX, aboveY⟩ | ⟨noneX, noneY, frontX, frontY⟩
        · exact Or.inl ⟨parent, aboveY, aboveX⟩
        · exact Or.inr ⟨noneY, noneX, frontY, frontX⟩
      have restored := (rivals_reversed arranged again swapped ended).filter keep
      have backward := reversed.filter keep
      have wholeX : [x, y].filter keep = [x, y] := by simp [kept x amongX, kept y amongY]
      have wholeY : [y, x].filter keep = [y, x] := by simp [kept x amongX, kept y amongY]
      rw [same, wholeX] at restored
      rw [wholeY] at backward
      obtain ⟨front, back, split⟩ := List.append_of_mem
        (backward.subset (List.mem_cons_of_mem _ List.mem_cons_self) :
          x ∈ (placement.attachAll ordered sequence).filter keep)
      rw [split] at backward restored nodup
      have early := mem_of_pair_sublist nodup backward
      obtain ⟨first, middle, parts⟩ := List.append_of_mem early
      rw [parts, List.append_assoc, List.cons_append] at restored nodup
      have alsoEarly := mem_of_pair_sublist nodup restored
      exact (List.nodup_append.mp nodup).2.2 x alsoEarly x (by simp) rfl
    rcases pair_sublist_or amongX amongY differ with pair | pair
    · exact contradiction x amongX y amongY differ rivals pair
    · have swapped : placement.Rivals y x := by
        rcases rivals with ⟨parent, aboveX, aboveY⟩ | ⟨noneX, noneY, frontX, frontY⟩
        · exact Or.inl ⟨parent, aboveY, aboveX⟩
        · exact Or.inr ⟨noneY, noneX, frontY, frontX⟩
      exact contradiction y amongY x amongX (Ne.symm differ) swapped pair
  · intro apart
    have elements := resorted_perm orderly
    apply congrArg (List.filter keep)
    apply attachAll_congr again orderly elements
    · intro x amongX y amongY
      exact apart x (elements.mem_iff.mp amongX) y (elements.mem_iff.mp amongY)
    · have none : (ordered.filter placement.last).filter (· ∈ sequence) = [] := by
        apply List.filter_eq_nil_iff.mpr
        intro x among member
        exact orderly.nodup.2 x (of_decide_eq_true member) (List.mem_filter.mp among).1
      have all : (sequence.filter placement.last).filter (· ∈ sequence) =
          sequence.filter placement.last := by
        apply List.filter_eq_self.mpr
        exact fun x among => decide_eq_true (List.mem_filter.mp among).1
      unfold resorted
      rw [List.filter_comm, filter_last_attachAll, List.filter_append, none, all, List.nil_append]

/-! ## Visits -/

/-- A visit of an element whose parent has been placed places at most the element. -/
theorem visit_of_placed {fuel : Nat} {placed : List α} {x : α}
    (parents : ∀ parent, placement.parent x = some parent → parent ∈ placed) :
    placement.visit (fuel + 1) placed x = if x ∈ placed then placed else placed ++ [x] := by
  rw [visit]
  by_cases among : x ∈ placed
  · rw [if_pos among, if_pos among]
  · rw [if_neg among, if_neg among]
    cases above : placement.parent x with
    | none => rfl
    | some parent =>
      have idle : placement.visit fuel placed parent = placed := by
        cases fuel with
        | zero => rfl
        | succ fuel => rw [visit, if_pos (parents parent above)]
      show placement.visit fuel placed parent ++ [x] = _
      rw [idle]

/-- Visits of elements of which parents come first place those that have not been placed. -/
theorem visitAll_of_placed {fuel : Nat} {placed elements : List α}
    (parents : ∀ before x after, elements = before ++ x :: after → x ∉ before ∧
      ∀ parent, placement.parent x = some parent → parent ∈ placed ∨ parent ∈ before) :
    elements.foldl (placement.visit (fuel + 1)) placed =
      placed ++ elements.filter (· ∉ placed) := by
  induction elements generalizing placed with
  | nil => rw [List.filter_nil, List.append_nil]; rfl
  | cons x elements rest =>
    have own : ∀ parent, placement.parent x = some parent → parent ∈ placed := by
      intro parent above
      rcases (parents [] x elements rfl).2 parent above with among | among
      · exact among
      · cases among
    rw [List.foldl_cons, visit_of_placed own]
    by_cases among : x ∈ placed
    · rw [if_pos among, List.filter_cons_of_neg (by simpa using among)]
      apply rest
      intro before y after split
      obtain ⟨once, above⟩ := parents (x :: before) y after (by rw [split]; rfl)
      refine ⟨fun early => once (List.mem_cons_of_mem _ early), ?_⟩
      intro parent known
      rcases above parent known with old | early
      · exact Or.inl old
      · rcases List.mem_cons.mp early with same | early
        · exact Or.inl (same ▸ among)
        · exact Or.inr early
    · rw [if_neg among, List.filter_cons_of_pos (by simpa using among)]
      have later : elements.filter (· ∉ placed ++ [x]) = elements.filter (· ∉ placed) := by
        apply List.filter_congr
        intro y member
        have differs : y ≠ x := by
          intro same
          obtain ⟨before, after, split⟩ := List.append_of_mem member
          exact (parents (x :: before) y after (by rw [split]; rfl)).1
            (same ▸ List.mem_cons_self)
        simp [differs]
      rw [rest, later, List.append_assoc]
      · rfl
      · intro before y after split
        obtain ⟨once, above⟩ := parents (x :: before) y after (by rw [split]; rfl)
        refine ⟨fun early => once (List.mem_cons_of_mem _ early), ?_⟩
        intro parent known
        rcases above parent known with old | early
        · exact Or.inl (List.mem_append_left _ old)
        · rcases List.mem_cons.mp early with same | early
          · exact Or.inl (List.mem_append_right _ (List.mem_singleton.mpr same))
          · exact Or.inr early

end Placement

/-! ## Other names -/

namespace Placement

variable {β : Type} [DecidableEq β]

/-- A placement is another one under other names of the elements. -/
structure Renames (first : Placement β) (second : Placement α) (name : β → α) : Prop where
  /-- Different elements have different names. -/
  injective : Function.Injective name
  /-- The parents are the same. -/
  parent : ∀ x, second.parent (name x) = (first.parent x).map name
  /-- The same elements go to the front. -/
  front : ∀ x, second.front (name x) = first.front x

namespace Renames

variable {first : Placement β} {second : Placement α} {name : β → α}

/-- A placement under other names. -/
theorem attach (renames : first.Renames second name) (ordered : List β) (x : β) :
    (first.attach ordered x).map name = second.attach (ordered.map name) (name x) := by
  have behind : ∀ (target : β) (list : List β), (insertBehind target x list).map name =
      insertBehind (name target) (name x) (list.map name) := by
    intro target list
    induction list with
    | nil => rfl
    | cons head list rest =>
      by_cases here : head = target
      · rw [here, insertBehind_self, List.map_cons, List.map_cons, List.map_cons, insertBehind_self]
      · have apart : name head ≠ name target := fun same => here (renames.injective same)
        rw [insertBehind_cons_of_ne here, List.map_cons, List.map_cons,
          insertBehind_cons_of_ne apart, rest]
  unfold Placement.attach
  rw [renames.parent, renames.front]
  cases first.parent x with
  | some parent => exact behind parent ordered
  | none =>
    show List.map name (if first.front x = true then _ else _) = _
    by_cases front : first.front x = true
    · rw [if_pos front]
      simp [front]
    · rw [if_neg front]
      simp [front]

/-- Placements under other names. -/
theorem attachAll (renames : first.Renames second name) (ordered sequence : List β) :
    (first.attachAll ordered sequence).map name =
      second.attachAll (ordered.map name) (sequence.map name) := by
  induction sequence generalizing ordered with
  | nil => rfl
  | cons x sequence rest =>
    show (first.attachAll (first.attach ordered x) sequence).map name =
      second.attachAll (second.attach (ordered.map name) (name x)) (sequence.map name)
    rw [rest, renames.attach]

/-- A visit under other names. -/
theorem visit (renames : first.Renames second name) (fuel : Nat) (placed : List β) (x : β) :
    (first.visit fuel placed x).map name = second.visit fuel (placed.map name) (name x) := by
  induction fuel generalizing x with
  | zero => rfl
  | succ fuel rest =>
    have member : name x ∈ placed.map name ↔ x ∈ placed :=
      List.mem_map_of_injective renames.injective
    rw [Placement.visit, Placement.visit, renames.parent]
    by_cases among : x ∈ placed
    · rw [if_pos among, if_pos (member.mpr among)]
    · rw [if_neg among, if_neg (fun known => among (member.mp known))]
      cases first.parent x with
      | none => exact List.map_append
      | some parent =>
        show (first.visit fuel placed parent ++ [x]).map name = _
        rw [List.map_append, rest]
        rfl

/-- Visits under other names. -/
theorem visitAll (renames : first.Renames second name) (fuel : Nat) (placed elements : List β) :
    (elements.foldl (first.visit fuel) placed).map name =
      (elements.map name).foldl (second.visit fuel) (placed.map name) := by
  induction elements generalizing placed with
  | nil => rfl
  | cons x elements rest =>
    rw [List.foldl_cons, List.map_cons, List.foldl_cons, rest, renames.visit]

end Renames

end Placement

end

end Bethkit.Lib
