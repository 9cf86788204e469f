import Bethkit.Spec.Extraction

/-!
# The walk of the string cursor

The positions of the cursor stand for a stack of the record iterator, and `next_record` yields the
first of the records that are still ahead. The panics of the walk are never reached.
-/

namespace Bethkit.StringCursor

open Lib RoseTree

variable {plugin : Plugin}

/-- The positions lead into the current group. -/
def Walks (plugin : Plugin) (cursor : StringCursor) : Prop :=
  ∀ group, plugin.groups[cursor.root]? = some group →
    ∃ children, descend group.children cursor.initialized.dropLast = some children

/-- The cursor moved, with the flags and the failure that it had. -/
def movedTo (cursor : StringCursor) (root : Nat) (positions : List Nat) : StringCursor :=
  { cursor with root, positions }

/-- There is always an innermost position. -/
theorem exists_initialized (cursor : StringCursor) :
    ∃ outer position, cursor.initialized = outer ++ [position] := by
  have filled : cursor.initialized ≠ [] := by
    unfold initialized
    split
    · exact List.cons_ne_nil _ _
    · assumption
  exact ⟨_, _, (List.dropLast_append_getLast filled).symm⟩

/-- Positions with an innermost one are the initialized ones. -/
theorem initialized_movedTo (cursor : StringCursor) (root : Nat) (outer : List Nat)
    (position : Nat) :
    (cursor.movedTo root (outer ++ [position])).initialized = outer ++ [position] := by
  simp [initialized, movedTo]

/-- At the start of a group, it and the later ones are on the stack. -/
theorem stack_start (cursor : StringCursor) (root : Nat) :
    (cursor.movedTo root []).stack plugin =
      (plugin.groups.drop root).map fun group => (group.children, 0) := by
  have start : (cursor.movedTo root []).initialized = [0] := by simp [initialized, movedTo]
  have there : (cursor.movedTo root []).root = root := rfl
  unfold stack
  rw [start, there]
  cases found : plugin.groups[root]? with
  | none =>
    have beyond := List.getElem?_eq_none_iff.mp found
    simp [List.drop_eq_nil_of_le beyond, List.drop_eq_nil_of_le (Nat.le_succ_of_le beyond)]
  | some group =>
    obtain ⟨inside, at_⟩ := List.getElem?_eq_some_iff.mp found
    rw [List.drop_eq_getElem_cons inside, List.map_cons, at_]
    rfl

/-- The start of a group is a place to walk from. -/
theorem walks_start (cursor : StringCursor) (root : Nat) :
    (cursor.movedTo root []).Walks plugin := by
  intro group _
  exact ⟨group.children, by simp [initialized, movedTo, descend]⟩

/-- Within a group, the stack is that of the path, with the later groups behind it. -/
theorem stack_within {cursor : StringCursor} {group : Group} {outer : List Nat} {position : Nat}
    (found : plugin.groups[cursor.root]? = some group)
    (initial : cursor.initialized = outer ++ [position]) :
    cursor.stack plugin = frames group.children (outer ++ [position]) ++
      (plugin.groups.drop (cursor.root + 1)).map fun group => (group.children, 0) := by
  unfold stack
  rw [found, initial]

/-- A path whose outer part leads somewhere is a place to walk from. -/
theorem walks_within {cursor : StringCursor} {group : Group} {outer : List Nat} {position : Nat}
    {children : List GroupChild} (found : plugin.groups[cursor.root]? = some group)
    (leads : descend group.children outer = some children) :
    (cursor.movedTo cursor.root (outer ++ [position])).Walks plugin := by
  intro other same
  have there : plugin.groups[cursor.root]? = some other := same
  obtain rfl := Option.some.inj (found.symm.trans there)
  rw [initialized_movedTo, List.dropLast_concat]
  exact ⟨children, leads⟩

/-- With fuel for all steps that are ahead, the walk yields the first record that is ahead. -/
theorem nextRecordLoop_eq {fuel : Nat} {cursor : StringCursor} (walks : cursor.Walks plugin)
    (enough : stackWeight (cursor.stack plugin) < fuel) :
    ∃ root positions,
      nextRecordLoop plugin fuel cursor =
        (.ok (cursor.remaining plugin).head?, cursor.movedTo root positions) ∧
      (cursor.movedTo root positions).Walks plugin ∧
      (cursor.movedTo root positions).remaining plugin = (cursor.remaining plugin).tail := by
  induction fuel generalizing cursor with
  | zero => omega
  | succ fuel ih =>
    cases found : plugin.groups[cursor.root]? with
    | none =>
      have beyond := List.getElem?_eq_none_iff.mp found
      have nothing : cursor.remaining plugin = [] := by
        simp [remaining, stack, ahead, found, List.drop_eq_nil_of_le (Nat.le_succ_of_le beyond)]
      refine ⟨cursor.root, cursor.positions, ?_, walks, ?_⟩
      · simp only [nextRecordLoop, found, nothing]
        rfl
      · exact nothing.trans (by rw [nothing]; rfl)
    | some group =>
      obtain ⟨outer, position, initial⟩ := cursor.exists_initialized
      obtain ⟨children, leads⟩ := walks group found
      rw [initial, List.dropLast_concat] at leads
      -- The pass ends with a record, or with a lighter stack that has the same records ahead.
      have within := stack_within found initial
      have moved : ∀ outer position,
          (cursor.movedTo cursor.root (outer ++ [position])).stack plugin =
            frames group.children (outer ++ [position]) ++
              (plugin.groups.drop (cursor.root + 1)).map fun group => (group.children, 0) :=
        fun outer position => stack_within found (initialized_movedTo cursor _ outer position)
      have again : ∀ next : StringCursor, next.Walks plugin →
          nextRecordLoop plugin (fuel + 1) cursor = nextRecordLoop plugin fuel next →
          (∀ root positions, next.movedTo root positions = cursor.movedTo root positions) →
          stackWeight (next.stack plugin) < stackWeight (cursor.stack plugin) →
          next.remaining plugin = cursor.remaining plugin →
          ∃ root positions,
            nextRecordLoop plugin (fuel + 1) cursor =
              (.ok (cursor.remaining plugin).head?, cursor.movedTo root positions) ∧
            (cursor.movedTo root positions).Walks plugin ∧
            (cursor.movedTo root positions).remaining plugin = (cursor.remaining plugin).tail := by
        intro next walksNext pass same lighter kept
        obtain ⟨root, positions, result, walksOn, ahead⟩ := ih walksNext (by omega)
        rw [same] at result walksOn ahead
        rw [kept] at result ahead
        exact ⟨root, positions, pass.trans result, walksOn, ahead⟩
      cases child : children[position]? with
      | none =>
        have less := stackWeight_none position leads
        have same := ahead_none leads child
        by_cases outermost : outer = []
        · apply again (cursor.movedTo (cursor.root + 1) []) (walks_start cursor _)
          · simp only [nextRecordLoop, found, initial, List.dropLast_concat,
              List.getLast?_concat, leads, child]
            rw [if_pos outermost]
            rfl
          · exact fun _ _ => rfl
          · rw [stack_start, within, stackWeight_append]
            omega
          · rw [remaining, remaining, stack_start, within, ahead_append, same, outermost]
            rfl
        · obtain ⟨path, last, rest⟩ := (List.eq_nil_or_concat' outer).resolve_left outermost
          obtain ⟨inner, reached⟩ := descend_of_append (rest ▸ leads)
          apply again (cursor.movedTo cursor.root (path ++ [last])) (walks_within found reached)
          · simp only [nextRecordLoop, found, initial, List.dropLast_concat,
              List.getLast?_concat, leads, child]
            rw [if_neg outermost, rest]
            rfl
          · exact fun _ _ => rfl
          · rw [moved, within, stackWeight_append, stackWeight_append, ← rest]
            omega
          · rw [remaining, remaining, moved, within, ahead_append, ahead_append, same, rest]
      | some tree =>
        cases tree with
        | leaf record =>
          have first := ahead_leaf leads child
          refine ⟨cursor.root, outer ++ [position + 1], ?_, walks_within found leads, ?_⟩
          · simp only [nextRecordLoop, found, initial, List.dropLast_concat,
              List.getLast?_concat, leads, child]
            rw [remaining, within, ahead_append, first]
            rfl
          · rw [remaining, remaining, moved, within, ahead_append, ahead_append, first]
            rfl
        | node label below =>
          have less := stackWeight_node leads child
          have same := ahead_node leads child
          apply again (cursor.movedTo cursor.root (outer ++ [position + 1] ++ [0]))
            (walks_within found (descend_node leads child))
          · simp only [nextRecordLoop, found, initial, List.dropLast_concat,
              List.getLast?_concat, leads, child]
            rfl
          · exact fun _ _ => rfl
          · rw [moved, within, stackWeight_append, stackWeight_append]
            omega
          · rw [remaining, remaining, moved, within, ahead_append, ahead_append, same]

/-- `next_record` yields the first record that is ahead and moves behind it. -/
theorem nextRecord_eq {cursor : StringCursor} (walks : cursor.Walks plugin) :
    ∃ root positions,
      cursor.nextRecord plugin =
        (.ok (cursor.remaining plugin).head?, cursor.movedTo root positions) ∧
      (cursor.movedTo root positions).Walks plugin ∧
      (cursor.movedTo root positions).remaining plugin = (cursor.remaining plugin).tail :=
  nextRecordLoop_eq walks (Nat.lt_succ_self _)

/-- A new cursor has the records of all groups ahead. -/
theorem remaining_new (cursor : StringCursor) :
    (cursor.movedTo 0 []).remaining plugin = plugin.records := by
  rw [remaining, stack_start, List.drop_zero, ahead, List.flatMap_map]
  apply List.flatMap_congr
  intro group _
  rw [Group.recordsRecursive_eq]
  rfl

end Bethkit.StringCursor
