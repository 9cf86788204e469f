import Bethkit.Lib.Outcome
import Bethkit.Spec.AfterLoad

/-!
# Path grids are trimmed when they are loaded

The loop over the points has trimmed the points before it and has still to read the groups of the
points behind it. So it gives the bytes of the trimmed grid, within its slices, and it reports a
change exactly when a group ends in an unused connection. Two subrecords hold a grid when their
lengths agree with the counts.
-/

namespace Bethkit

open Lib

namespace GridPoint

variable (point : GridPoint)

/-- The connections stand in two bytes each. -/
theorem length_connectionBytes : point.connectionBytes.length = 2 * point.connections.length := by
  simp only [connectionBytes, List.length_flatMap, length_u16ToLeBytes, List.map_const',
    List.sum_replicate, smul_eq_mul]
  omega

/-- The connections of a group are read back. -/
theorem asChunks_connectionBytes :
    asChunks 2 point.connectionBytes = point.connections.map u16ToLeBytes := by
  apply asChunks_flatten (by decide)
  intro piece found
  obtain ⟨connection, _, bytes⟩ := List.mem_map.mp found
  rw [← bytes, length_u16ToLeBytes]

/-- Only the unused connection has two bytes with all bits set. -/
theorem u16ToLeBytes_bne (connection : UInt16) :
    (!(u16ToLeBytes connection != [0xFF, 0xFF])) = (connection == unusedConnection) := by
  have written : u16ToLeBytes unusedConnection = [0xFF, 0xFF] := by decide
  rw [bne, Bool.not_not, ← written, Bool.eq_iff_iff, beq_iff_eq, beq_iff_eq]
  constructor
  · intro same
    rw [← u16FromLeBytes_toLeBytes connection, same, u16FromLeBytes_toLeBytes]
  · exact fun same => congrArg u16ToLeBytes same

/-- Items are dropped from the end before or after a function is applied. -/
theorem rdropWhile_map {α β : Type} (f : α → β) (dropped : β → Bool) (items : List α) :
    (items.map f).rdropWhile dropped = (items.rdropWhile (dropped ∘ f)).map f := by
  induction items using List.reverseRecOn with
  | nil => rfl
  | append_singleton items item ih =>
    rw [List.map_append, List.map_singleton, List.rdropWhile_concat, List.rdropWhile_concat, ih]
    by_cases drop : dropped (f item) = true
    · simp [drop]
    · simp [drop]

/-- The last connection in use gives the number of connections that are kept. -/
theorem retainedLen_eq :
    ((rposition (· != [0xFF, 0xFF]) (asChunks 2 point.connectionBytes)).map (· + 1)).getD 0 =
      point.used.length := by
  have kinds : ((fun item : Bytes => !(item != [0xFF, 0xFF])) ∘ u16ToLeBytes) =
      (· == unusedConnection) := funext u16ToLeBytes_bne
  rw [rposition_eq_length, asChunks_connectionBytes, rdropWhile_map, List.length_map, kinds, used]

/-- The bytes of the connections that are kept stand at the front of the group. -/
theorem take_connectionBytes :
    point.connectionBytes.take (point.used.length * 2) = point.trimmed.connectionBytes := by
  obtain ⟨rest, whole⟩ := List.rdropWhile_prefix (· == unusedConnection) point.connections
  have length := point.trimmed.length_connectionBytes
  have split : point.connectionBytes =
      point.trimmed.connectionBytes ++ rest.flatMap u16ToLeBytes := by
    show point.connections.flatMap u16ToLeBytes = point.used.flatMap u16ToLeBytes ++ _
    rw [← List.flatMap_append]
    exact congrArg (List.flatMap u16ToLeBytes) whole.symm
  have kept : point.used.length * 2 = point.trimmed.connectionBytes.length := by
    rw [length]
    show _ = 2 * point.used.length
    omega
  rw [split, kept, List.take_left]

/-- A group keeps its length exactly when it does not end in an unused connection. -/
theorem length_used_eq_iff : point.used.length = point.connections.length ↔ ¬point.EndsUnused := by
  have whole : point.used.length = point.connections.length ↔ point.used = point.connections :=
    ⟨(List.rdropWhile_prefix _ _).eq_of_length, congrArg List.length⟩
  rw [whole, used, List.rdropWhile_eq_self_iff]
  constructor
  · intro kept ends
    have some : point.connections ≠ [] := fun none => by simp [EndsUnused, none] at ends
    rw [EndsUnused, List.getLast?_eq_some_getLast some] at ends
    exact kept some (by simp [Option.some.inj ends])
  · intro kept some last
    apply kept
    rw [EndsUnused, List.getLast?_eq_some_getLast some, beq_iff_eq.mp last]

/-- A trimmed group does not end in an unused connection. -/
theorem trimmed_not_endsUnused : ¬point.trimmed.EndsUnused := by
  rw [← length_used_eq_iff]
  show ((point.connections.rdropWhile _).rdropWhile _).length = _
  rw [List.rdropWhile_idempotent]
  rfl

/-- A point whose group keeps its length keeps its bytes. -/
theorem trimmed_bytes_of_length (same : point.used.length = point.connections.length) :
    point.trimmed.bytes = point.bytes := by
  have inside : 12 < point.bytes.length := by
    rw [point.sized]
    decide
  have count : UInt8.ofNat point.used.length = point.bytes[12] := by
    rw [same, ← point.counted, pointCount, List.getD_eq_getElem _ _ inside, UInt8.ofNat_toNat]
  show point.bytes.set 12 _ = point.bytes
  rw [count, List.set_getElem_self inside]

end GridPoint

namespace PathGrid

/-- One round of the loop trims one point, within the slices. -/
theorem normalizePoint_eq (point : GridPoint) {donePoints behindPoints : Bytes} {index : Nat}
    {doneConnections behindConnections kept : Bytes} (changed : Bool)
    (place : donePoints.length = 16 * index) :
    normalizePoint (doneConnections ++ (point.connectionBytes ++ behindConnections))
        ⟨donePoints ++ (point.bytes ++ behindPoints), kept, doneConnections.length, changed⟩
        (point.bytes, index) =
      .ok ⟨donePoints ++ (point.trimmed.bytes ++ behindPoints),
        kept ++ point.trimmed.connectionBytes,
        doneConnections.length + point.connectionBytes.length,
        changed || point.used.length ≠ point.connections.length⟩ := by
  have stop : doneConnections.length + point.connections.length * 2 =
      doneConnections.length + point.connectionBytes.length := by
    rw [point.length_connectionBytes, Nat.mul_comm]
  have slice : Panic.slice (doneConnections ++ (point.connectionBytes ++ behindConnections))
      doneConnections.length (doneConnections.length + point.connectionBytes.length) =
        .ok point.connectionBytes := by
    rw [Panic.slice, Bytes.get_append]
  have fewer := point.length_used_le
  have inside : 0 ≤ point.used.length * 2 ∧
      point.used.length * 2 ≤ point.connectionBytes.length := by
    rw [point.length_connectionBytes]
    omega
  have retained : Panic.slice point.connectionBytes 0 (point.used.length * 2) =
      .ok point.trimmed.connectionBytes := by
    rw [Panic.slice, Bytes.get, if_pos inside, Bytes.slice, List.drop_zero, Nat.sub_zero,
      point.take_connectionBytes]
  unfold normalizePoint
  dsimp only
  rw [point.counted, stop, slice, ok_bind, point.retainedLen_eq]
  by_cases same : point.used.length = point.connections.length
  · rw [if_neg (not_not.mpr same), ok_bind, retained, ok_bind, point.trimmed_bytes_of_length same]
  · have small : point.used.length < 256 := by
      have below := point.length_connections_lt
      omega
    have sized := point.sized
    have assigned : Panic.assign (donePoints ++ (point.bytes ++ behindPoints)) (index * 16 + 12)
        (UInt8.ofNat point.used.length) =
          .ok (donePoints ++ (point.trimmed.bytes ++ behindPoints)) := by
      have within : index * 16 + 12 < (donePoints ++ (point.bytes ++ behindPoints)).length := by
        simp only [List.length_append]
        omega
      have shift : index * 16 + 12 - donePoints.length = 12 := by omega
      rw [Panic.assign, if_pos within, List.set_append_right _ _ (by omega), shift,
        List.set_append_left _ _ (by omega)]
      rfl
    rw [if_pos same, Panic.expectU8, if_pos small, ok_bind, assigned, ok_bind, retained, ok_bind]

/-- The bytes of points with the bytes of more points. -/
theorem pointBytes_cons (point : GridPoint) (grid : PathGrid) :
    pointBytes (point :: grid) = point.bytes ++ pointBytes grid := List.flatMap_cons

/-- The bytes of connections with the bytes of more connections. -/
theorem connectionBytes_cons (point : GridPoint) (grid : PathGrid) :
    connectionBytes (point :: grid) = point.connectionBytes ++ connectionBytes grid :=
  List.flatMap_cons

/-- The loop trims the points that are left. -/
theorem foldlM_normalizePoint (grid : PathGrid) (donePoints doneConnections kept : Bytes)
    {index : Nat} (changed : Bool) (place : donePoints.length = 16 * index) :
    ((grid.map (·.bytes)).zipIdx index).foldlM
        (normalizePoint (doneConnections ++ connectionBytes grid))
        ⟨donePoints ++ pointBytes grid, kept, doneConnections.length, changed⟩ =
      .ok ⟨donePoints ++ pointBytes (trimmed grid), kept ++ connectionBytes (trimmed grid),
        doneConnections.length + (connectionBytes grid).length,
        changed || grid.any fun point => point.used.length ≠ point.connections.length⟩ := by
  induction grid generalizing donePoints doneConnections kept index changed with
  | nil => simp [pointBytes, connectionBytes, trimmed]; rfl
  | cons point grid ih =>
    have next : (donePoints ++ point.trimmed.bytes).length = 16 * (index + 1) := by
      rw [List.length_append, point.trimmed.sized]
      omega
    have rest := ih (donePoints ++ point.trimmed.bytes) (doneConnections ++ point.connectionBytes)
      (kept ++ point.trimmed.connectionBytes)
      (changed || point.used.length ≠ point.connections.length) next
    rw [List.map_cons, List.zipIdx_cons, List.foldlM_cons, pointBytes_cons, connectionBytes_cons,
      normalizePoint_eq point changed place, ok_bind]
    rw [List.length_append, List.append_assoc, List.append_assoc] at rest
    rw [rest]
    simp [trimmed, pointBytes_cons, connectionBytes_cons, Nat.add_assoc, Bool.or_assoc]

/-- The points are read back. -/
theorem asChunks_pointBytes (grid : PathGrid) : asChunks 16 grid.pointBytes = grid.map (·.bytes) := by
  apply asChunks_flatten (by decide)
  intro piece found
  obtain ⟨point, _, bytes⟩ := List.mem_map.mp found
  rw [← bytes, point.sized]

/-- The points stand in sixteen bytes each. -/
theorem length_pointBytes (grid : PathGrid) : grid.pointBytes.length = 16 * grid.length := by
  induction grid with
  | nil => rfl
  | cons point grid ih =>
    rw [pointBytes_cons, List.length_append, point.sized, ih, List.length_cons]
    omega

/-- The counts are the connections: they stand in two bytes each. -/
theorem length_connectionBytes (grid : PathGrid) :
    2 * expectedConnections grid.pointBytes = grid.connectionBytes.length := by
  rw [expectedConnections, asChunks_pointBytes, List.map_map]
  induction grid with
  | nil => rfl
  | cons point grid ih =>
    rw [connectionBytes_cons, List.length_append, point.length_connectionBytes, ← ih, List.map_cons,
      List.sum_cons, Function.comp, point.counted, Nat.mul_add]

/-- Pieces of sixteen bytes and connections that agree with their counts are a grid. -/
theorem exists_of_pieces {pieces : List Bytes} (sized : ∀ piece ∈ pieces, piece.length = 16)
    {connections : Bytes} (counted : 2 * (pieces.map pointCount).sum = connections.length) :
    ∃ grid : PathGrid, grid.Holds pieces.flatten connections := by
  induction pieces generalizing connections with
  | nil =>
    have none : connections = [] := List.length_eq_zero_iff.mp counted.symm
    exact ⟨[], rfl, none.symm⟩
  | cons piece pieces ih =>
    rw [List.map_cons, List.sum_cons, Nat.mul_add] at counted
    have behind : 2 * (pieces.map pointCount).sum =
        (connections.drop (2 * pointCount piece)).length := by
      rw [List.length_drop]
      omega
    obtain ⟨grid, points, rest⟩ := ih (fun other found => sized other (List.mem_cons_of_mem _ found))
      behind
    have front : (connections.take (2 * pointCount piece)).length = pointCount piece * 2 := by
      rw [List.length_take]
      omega
    obtain ⟨chunks, joined, pairs⟩ := exists_pieces front
    have words : chunks.length = pointCount piece := by
      have total := front
      rw [← joined, List.length_flatten, List.map_congr_left pairs, List.map_const',
        List.sum_replicate, smul_eq_mul] at total
      omega
    let point : GridPoint := ⟨piece, chunks.map u16FromLeBytes, sized piece List.mem_cons_self, by
      rw [List.length_map, words]⟩
    have bytes : point.connectionBytes = connections.take (2 * pointCount piece) := by
      show (chunks.map u16FromLeBytes).flatMap u16ToLeBytes = _
      rw [List.flatMap_map, ← joined, ← List.flatMap_id]
      exact List.flatMap_congr fun pair found => u16ToLeBytes_fromLeBytes pair (pairs pair found)
    refine ⟨point :: grid, ?_, ?_⟩
    · rw [pointBytes_cons, points, List.flatten_cons]
    · rw [connectionBytes_cons, bytes, rest, List.take_append_drop]

/-- Two subrecords hold a grid exactly when the points are whole and the counts give the length of
the connections. -/
theorem exists_holds_iff (points connections : Bytes) :
    (∃ grid : PathGrid, grid.Holds points connections) ↔
      points.length % 16 = 0 ∧ 2 * expectedConnections points = connections.length := by
  constructor
  · intro held
    obtain ⟨grid, bytes, groups⟩ := held
    rw [← bytes, ← groups]
    refine ⟨?_, grid.length_connectionBytes⟩
    rw [grid.length_pointBytes]
    omega
  · intro lengths
    obtain ⟨joined, sized⟩ := flatten_asChunks (by decide : 0 < 16) lengths.1
    have held := exists_of_pieces sized lengths.2
    rwa [joined] at held

/-- Some group shrinks exactly when some group ends in an unused connection. -/
theorem any_shrinks_iff (grid : PathGrid) :
    (grid.any fun point => point.used.length ≠ point.connections.length) = true ↔
      grid.HasUnused := by
  rw [List.any_eq_true]
  constructor
  · intro shrinks
    obtain ⟨point, found, fewer⟩ := shrinks
    exact ⟨point, found, not_not.mp fun used =>
      of_decide_eq_true fewer (point.length_used_eq_iff.mpr used)⟩
  · intro unused
    obtain ⟨point, found, ends⟩ := unused
    exact ⟨point, found, decide_eq_true fun same => point.length_used_eq_iff.mp same ends⟩

/-- A trimmed grid has no group that ends in an unused connection. -/
theorem trimmed_not_hasUnused (grid : PathGrid) : ¬grid.trimmed.HasUnused := by
  intro unused
  obtain ⟨point, found, ends⟩ := unused
  obtain ⟨source, _, same⟩ := List.mem_map.mp found
  rw [← same] at ends
  exact source.trimmed_not_endsUnused ends

/-- The bytes of a grid become the bytes of the trimmed grid, if some group shrinks; otherwise there
is nothing to do. -/
theorem normalize_eq (grid : PathGrid) :
    normalizeOblivionPointConnections grid.pointBytes grid.connectionBytes =
      .ok (if grid.any fun point => point.used.length ≠ point.connections.length then
        some (grid.trimmed.pointBytes, grid.trimmed.connectionBytes) else none) := by
  have total := grid.length_connectionBytes
  have whole : ¬(grid.pointBytes.length % 16 ≠ 0 ∨ grid.connectionBytes.length % 2 ≠ 0) := by
    rw [grid.length_pointBytes]
    omega
  have counted : ¬expectedConnections grid.pointBytes * 2 ≠ grid.connectionBytes.length := by omega
  have loop := foldlM_normalizePoint grid [] [] [] false (Nat.mul_zero 16).symm
  rw [List.nil_append, List.nil_append, List.nil_append, List.nil_append, Bool.false_or] at loop
  rw [normalizeOblivionPointConnections, if_neg whole, if_neg counted, grid.asChunks_pointBytes]
  exact (congrArg (· >>= _) loop).trans (ok_bind _ _)

/-- A grid with an unused connection at the end of a group is trimmed. -/
theorem normalize_of_hasUnused {grid : PathGrid} (unused : grid.HasUnused) :
    normalizeOblivionPointConnections grid.pointBytes grid.connectionBytes =
      .ok (some (grid.trimmed.pointBytes, grid.trimmed.connectionBytes)) := by
  rw [normalize_eq, if_pos (grid.any_shrinks_iff.mpr unused)]

/-- A grid without an unused connection at the end of a group is left alone. -/
theorem normalize_of_not_hasUnused {grid : PathGrid} (used : ¬grid.HasUnused) :
    normalizeOblivionPointConnections grid.pointBytes grid.connectionBytes = .ok none := by
  rw [normalize_eq, if_neg (used ∘ grid.any_shrinks_iff.mp)]

/-- Bytes that hold no grid are left alone. -/
theorem normalize_of_not_holds {points connections : Bytes}
    (other : ¬∃ grid : PathGrid, grid.Holds points connections) :
    normalizeOblivionPointConnections points connections = .ok none := by
  rw [exists_holds_iff] at other
  rw [normalizeOblivionPointConnections]
  by_cases whole : points.length % 16 ≠ 0 ∨ connections.length % 2 ≠ 0
  · rw [if_pos whole]
  · have differ : expectedConnections points * 2 ≠ connections.length := by omega
    rw [if_neg whole, if_pos differ]

/-- Trimming changes no byte of the points but the counts. -/
theorem getElem?_pointBytes_trimmed (grid : PathGrid) {index : Nat} (other : index % 16 ≠ 12) :
    grid.trimmed.pointBytes[index]? = grid.pointBytes[index]? := by
  induction grid generalizing index with
  | nil => rfl
  | cons point grid ih =>
    have sized := point.sized
    show (pointBytes (point.trimmed :: trimmed grid))[index]? = _
    rw [pointBytes_cons, pointBytes_cons]
    by_cases first : index < 16
    · rw [List.getElem?_append_left (by rw [point.trimmed.sized]; exact first),
        List.getElem?_append_left (by omega)]
      exact List.getElem?_set_ne (by omega)
    · rw [List.getElem?_append_right (by rw [point.trimmed.sized]; omega),
        List.getElem?_append_right (by omega), point.trimmed.sized, point.sized]
      exact ih (by omega)

/-- Trimming keeps the points apart from their counts. -/
theorem length_pointBytes_trimmed (grid : PathGrid) :
    grid.trimmed.pointBytes.length = grid.pointBytes.length := by
  rw [length_pointBytes, length_pointBytes, trimmed, List.length_map]

/-- The groups of a trimmed grid are the old groups without the unused connections at their ends,
and the counts are their lengths. -/
theorem forall₂_trimmed (grid : PathGrid) :
    List.Forall₂ (fun old new => new.connections = old.connections.rdropWhile (· == unusedConnection)
      ∧ pointCount new.bytes = new.connections.length) grid grid.trimmed := by
  rw [trimmed, List.forall₂_map_right_iff, List.forall₂_same]
  exact fun point _ => ⟨rfl, point.trimmed.counted⟩

end PathGrid

/-- Loading an Oblivion path grid trims the groups of its connections: the two subrecords change
exactly when they hold a grid and some group ends in an unused connection; then they hold the grid
with trimmed groups, whose counts agree again, every other byte of the points is as before, and
there is nothing left to do. No slice is out of range. -/
theorem oblivionPointConnections_trimmed (points connections : Bytes) :
    (normalizeOblivionPointConnections points connections).isOk = true ∧
    ((∃ grid : PathGrid, grid.Holds points connections) ↔
      points.length % 16 = 0 ∧ 2 * expectedConnections points = connections.length) ∧
    ((∃ result, normalizeOblivionPointConnections points connections = .ok (some result)) ↔
      ∃ grid : PathGrid, grid.Holds points connections ∧
        ∃ point ∈ grid, point.connections.getLast? = some 0xFFFF) ∧
    ∀ points' connections',
      normalizeOblivionPointConnections points connections = .ok (some (points', connections')) →
      ∀ grid : PathGrid, grid.Holds points connections →
        (∃ grid' : PathGrid, grid'.Holds points' connections' ∧
          List.Forall₂ (fun old new =>
            new.connections = old.connections.rdropWhile (· == (0xFFFF : UInt16)) ∧
              pointCount new.bytes = new.connections.length) grid grid') ∧
        points'.length = points.length ∧
        (∀ index, index % 16 ≠ 12 → points'[index]? = points[index]?) ∧
        2 * expectedConnections points' = connections'.length ∧
        normalizeOblivionPointConnections points' connections' = .ok none := by
  refine ⟨?_, PathGrid.exists_holds_iff points connections, ⟨?_, ?_⟩, ?_⟩
  · by_cases held : ∃ grid : PathGrid, grid.Holds points connections
    · obtain ⟨grid, bytes, groups⟩ := held
      rw [← bytes, ← groups, PathGrid.normalize_eq]
      rfl
    · rw [PathGrid.normalize_of_not_holds held]
      rfl
  · intro some
    obtain ⟨result, done⟩ := some
    by_cases held : ∃ grid : PathGrid, grid.Holds points connections
    · obtain ⟨grid, bytes, groups⟩ := held
      refine ⟨grid, ⟨bytes, groups⟩, ?_⟩
      by_contra used
      rw [← bytes, ← groups, PathGrid.normalize_of_not_hasUnused used] at done
      cases done
    · rw [PathGrid.normalize_of_not_holds held] at done
      cases done
  · intro held
    obtain ⟨grid, bytes, unused⟩ := held
    rw [← bytes.1, ← bytes.2]
    exact ⟨_, PathGrid.normalize_of_hasUnused unused⟩
  · intro points' connections' done grid held
    rw [← held.1, ← held.2] at done
    have unused : grid.HasUnused := by
      by_contra used
      rw [PathGrid.normalize_of_not_hasUnused used] at done
      cases done
    rw [PathGrid.normalize_of_hasUnused unused] at done
    cases done
    refine ⟨⟨grid.trimmed, ⟨rfl, rfl⟩, grid.forall₂_trimmed⟩, ?_, ?_, ?_, ?_⟩
    · rw [← held.1, grid.length_pointBytes_trimmed]
    · intro index other
      rw [← held.1, grid.getElem?_pointBytes_trimmed other]
    · exact grid.trimmed.length_connectionBytes
    · exact PathGrid.normalize_of_not_hasUnused grid.trimmed_not_hasUnused

end Bethkit
