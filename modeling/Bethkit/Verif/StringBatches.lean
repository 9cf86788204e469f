import Bethkit.Verif.StringWalk
import Bethkit.Spec.Sample

/-!
# The batches of the string cursor

A batch visits the records ahead of the cursor one after the other, so the batches of consecutive
calls cut them into blocks. The one thing that a batch can lose are the diagnostics before a fatal
record, when the batch has no values yet.
-/

namespace Bethkit.StringCursor

open Lib

variable {row : Type} {decoder : StringDecoder row} {plugin : Plugin} {cursor moved : StringCursor}
  {record : Record} {limit bytes : Nat} {values : List row} {diagnostics : List StringDiagnostic}

/-! ## One record -/

/-- The pass of the loop of `next_json` for a record that becomes this. -/
def fillVisit (decoder : StringDecoder row) (plugin : Plugin) (limit : Nat) (values : List row)
    (diagnostics : List StringDiagnostic) (bytes : Nat) (cursor : StringCursor) :
    Visit row → Except FfiError (StringBatch row) × StringCursor
  | .skipped => fill decoder plugin limit values diagnostics bytes cursor
  | .kept diagnostic =>
    fill decoder plugin limit values (diagnostics ++ [diagnostic]) bytes cursor
  | .fatal error =>
    if values.isEmpty then (.error error, cursor)
    else (.ok { values, done := false, diagnostics }, { cursor with pendingError := some error })
  | .decoded rows size =>
    if BYTE_LIMIT ≤ bytes + size ∨ STRING_LIMIT ≤ (values ++ rows).length then
      (.ok { values := values ++ rows, done := false, diagnostics }, cursor)
    else fill decoder plugin limit (values ++ rows) diagnostics (bytes + size) cursor

/-- The branches of the loop are the kinds of visits. -/
theorem fill_record (next : cursor.nextRecord plugin = (.ok (some record), moved)) :
    fill decoder plugin (limit + 1) values diagnostics bytes cursor =
      fillVisit decoder plugin limit values diagnostics bytes moved
        (moved.visit decoder plugin record) := by
  simp only [fill, next, visit]
  by_cases skipped : (moved.textFree.contains record.header.signature && !moved.validateNontext) = true
  · simp only [skipped, ↓reduceIte, fillVisit]
  · simp only [skipped, Bool.false_eq_true, ↓reduceIte]
    cases decoder.stringRows record plugin.isLocalized
        (moved.textFree.contains record.header.signature) with
    | ok rows => rfl
    | error error =>
      by_cases keeps : (moved.textFree.contains record.header.signature &&
          moved.preserveOpaqueNontext) = true
      · simp only [keeps, ↓reduceIte, fillVisit]
      · simp only [keeps, Bool.false_eq_true, ↓reduceIte, fillVisit]

/-- A loop with passes left visits the first record that is ahead. -/
theorem fill_succ (decoder : StringDecoder row) (limit : Nat) (values : List row)
    (diagnostics : List StringDiagnostic) (bytes : Nat) (walks : cursor.Walks plugin)
    {records : List Record}
    (ahead : cursor.remaining plugin = record :: records) :
    ∃ root positions,
      fill decoder plugin (limit + 1) values diagnostics bytes cursor =
        fillVisit decoder plugin limit values diagnostics bytes (cursor.movedTo root positions)
          (cursor.visit decoder plugin record) ∧
      (cursor.movedTo root positions).Walks plugin ∧
      (cursor.movedTo root positions).remaining plugin = records := by
  obtain ⟨root, positions, next, walksOn, rest⟩ := nextRecord_eq walks
  rw [ahead] at next rest
  exact ⟨root, positions, fill_record next, walksOn, rest⟩

/-- With no record ahead, a loop with passes left is done. -/
theorem fill_done (walks : cursor.Walks plugin) (ahead : cursor.remaining plugin = []) :
    ∃ root positions,
      fill decoder plugin (limit + 1) values diagnostics bytes cursor =
        (.ok { values, done := true, diagnostics }, cursor.movedTo root positions) ∧
      (cursor.movedTo root positions).Walks plugin ∧
      (cursor.movedTo root positions).remaining plugin = [] := by
  obtain ⟨root, positions, next, walksOn, rest⟩ := nextRecord_eq walks
  rw [ahead] at next rest
  refine ⟨root, positions, ?_, walksOn, rest⟩
  simp only [fill, next, List.head?_nil]

/-! ## One batch -/

/-- How the loop ends for a cursor: at the end of a block, before a fatal record whose error waits,
or with the error itself. -/
inductive Filled (decoder : StringDecoder row) (plugin : Plugin) (cursor : StringCursor)
    (limit : Nat) (values : List row) (diagnostics : List StringDiagnostic) (bytes : Nat) :
    Except FfiError (StringBatch row) × StringCursor → Prop where
  /-- A block of records. -/
  | delivered {block : List Record} {batch : StringBatch row} {root : Nat} {positions : List Nat}
      (walks : (cursor.movedTo root positions).Walks plugin)
      (ahead : cursor.remaining plugin =
        block ++ (cursor.movedTo root positions).remaining plugin)
      (harmless : ∀ record ∈ block, (cursor.visit decoder plugin record).error = none)
      (gives : batch.values =
        values ++ block.flatMap fun record => (cursor.visit decoder plugin record).values)
      (notes : batch.diagnostics =
        diagnostics ++ block.flatMap fun record => (cursor.visit decoder plugin record).diagnostics)
      (done : batch.done → (cursor.movedTo root positions).remaining plugin = [])
      (progress : limit ≠ 0 → batch.done = false → block ≠ []) :
      Filled decoder plugin cursor limit values diagnostics bytes
        (.ok batch, cursor.movedTo root positions)
  /-- A block of records with values, and a fatal one. -/
  | held {block rest : List Record} {record : Record} {batch : StringBatch row} {error : FfiError}
      {root : Nat} {positions : List Nat}
      (ahead : cursor.remaining plugin = block ++ record :: rest)
      (harmless : ∀ record ∈ block, (cursor.visit decoder plugin record).error = none)
      (gives : batch.values =
        values ++ block.flatMap fun record => (cursor.visit decoder plugin record).values)
      (notes : batch.diagnostics =
        diagnostics ++ block.flatMap fun record => (cursor.visit decoder plugin record).diagnostics)
      (more : batch.done = false)
      (fatal : (cursor.visit decoder plugin record).error = some error) :
      Filled decoder plugin cursor limit values diagnostics bytes
        (.ok batch, { cursor.movedTo root positions with pendingError := some error })
  /-- A block of records without values, and a fatal one. -/
  | failed {block rest : List Record} {record : Record} {error : FfiError}
      {root : Nat} {positions : List Nat}
      (ahead : cursor.remaining plugin = block ++ record :: rest)
      (harmless : ∀ record ∈ block, (cursor.visit decoder plugin record).error = none)
      (start : values = [])
      (empty : ∀ record ∈ block, (cursor.visit decoder plugin record).values = [])
      (fatal : (cursor.visit decoder plugin record).error = some error)
      (reached : block.length < limit)
      (light : bytes + (block.map fun record => (cursor.visit decoder plugin record).bytes).sum <
        BYTE_LIMIT) :
      Filled decoder plugin cursor limit values diagnostics bytes
        (.error error, cursor.movedTo root positions)

/-- A loop that goes on behind a harmless record ends as the rest of it does. -/
theorem Filled.cons {visited : Record} {root : Nat} {positions : List Nat} {records : List Record}
    {result : Except FfiError (StringBatch row) × StringCursor}
    (ahead : cursor.remaining plugin = visited :: records)
    (rest : (cursor.movedTo root positions).remaining plugin = records)
    (harmless : (cursor.visit decoder plugin visited).error = none)
    (tail : Filled decoder plugin (cursor.movedTo root positions) limit
      (values ++ (cursor.visit decoder plugin visited).values)
      (diagnostics ++ (cursor.visit decoder plugin visited).diagnostics)
      (bytes + (cursor.visit decoder plugin visited).bytes) result) :
    Filled decoder plugin cursor (limit + 1) values diagnostics bytes result := by
  cases tail with
  | delivered walks split others gives notes done progress =>
    rw [rest] at split
    refine .delivered walks (ahead.trans (congrArg (visited :: ·) split))
      (List.forall_mem_cons.mpr ⟨harmless, others⟩) ?_ ?_ done (fun _ _ => List.cons_ne_nil _ _)
    · rw [gives, List.flatMap_cons, List.append_assoc]
      rfl
    · rw [notes, List.flatMap_cons, List.append_assoc]
      rfl
  | held split others gives notes more fatal =>
    rw [rest] at split
    refine .held (ahead.trans (congrArg (visited :: ·) split))
      (List.forall_mem_cons.mpr ⟨harmless, others⟩) ?_ ?_ more fatal
    · rw [gives, List.flatMap_cons, List.append_assoc]
      rfl
    · rw [notes, List.flatMap_cons, List.append_assoc]
      rfl
  | failed split others start empty fatal reached light =>
    rw [rest] at split
    obtain ⟨startEmpty, visitedEmpty⟩ := List.append_eq_nil_iff.mp start
    refine .failed (ahead.trans (congrArg (visited :: ·) split))
      (List.forall_mem_cons.mpr ⟨harmless, others⟩) startEmpty
      (List.forall_mem_cons.mpr ⟨visitedEmpty, empty⟩) fatal (Nat.succ_lt_succ reached) ?_
    rw [List.map_cons, List.sum_cons, ← Nat.add_assoc]
    exact light

/-- Every loop ends in one of the three ways. -/
theorem filled (decoder : StringDecoder row) (limit : Nat) (values : List row)
    (diagnostics : List StringDiagnostic) (walks : cursor.Walks plugin) (light : bytes < BYTE_LIMIT) :
    Filled decoder plugin cursor limit values diagnostics bytes
      (fill decoder plugin limit values diagnostics bytes cursor) := by
  induction limit generalizing cursor values diagnostics bytes with
  | zero =>
    have here : (cursor.movedTo cursor.root cursor.positions).Walks plugin := walks
    have nothing : cursor.remaining plugin =
        [] ++ (cursor.movedTo cursor.root cursor.positions).remaining plugin := rfl
    exact .delivered here nothing (by simp) (by simp) (by simp) (by simp)
      (fun none => absurd rfl none)
  | succ limit ih =>
    cases ahead : cursor.remaining plugin with
    | nil =>
      obtain ⟨root, positions, result, walksOn, rest⟩ := fill_done walks ahead
      rw [result]
      have nothing : cursor.remaining plugin =
          [] ++ (cursor.movedTo root positions).remaining plugin := by rw [ahead, rest]; rfl
      exact .delivered walksOn nothing (by simp) (by simp) (by simp) (fun _ => rest) (by simp)
    | cons record records =>
      obtain ⟨root, positions, result, walksOn, rest⟩ :=
        fill_succ decoder limit values diagnostics bytes walks ahead
      rw [result]
      cases seen : cursor.visit decoder plugin record with
      | skipped =>
        apply Filled.cons ahead rest (by rw [seen]; rfl)
        rw [seen]
        simpa [fillVisit, Visit.values, Visit.diagnostics, Visit.bytes] using ih _ _ walksOn light
      | kept diagnostic =>
        apply Filled.cons ahead rest (by rw [seen]; rfl)
        rw [seen]
        simpa [fillVisit, Visit.values, Visit.diagnostics, Visit.bytes] using ih _ _ walksOn light
      | fatal error =>
        have fatal : (cursor.visit decoder plugin record).error = some error := by rw [seen]; rfl
        cases values with
        | nil =>
          have first : cursor.remaining plugin = [] ++ record :: records := ahead
          exact .failed first (by simp) rfl (by simp) fatal (Nat.succ_pos limit)
            (by simpa using light)
        | cons value values =>
          have first : cursor.remaining plugin = [] ++ record :: records := ahead
          exact .held first (by simp) (by simp) (by simp) rfl fatal
      | decoded rows size =>
        have harmless : (cursor.visit decoder plugin record).error = none := by rw [seen]; rfl
        by_cases full : BYTE_LIMIT ≤ bytes + size ∨ STRING_LIMIT ≤ (values ++ rows).length
        · simp only [fillVisit, if_pos full]
          have first : cursor.remaining plugin =
              [record] ++ (cursor.movedTo root positions).remaining plugin := by rw [ahead, rest]; rfl
          exact .delivered walksOn first (by simpa using harmless) (by simp [seen, Visit.values])
            (by simp [seen, Visit.diagnostics]) (by simp) (by simp)
        · simp only [fillVisit, if_neg full]
          apply Filled.cons ahead rest harmless
          rw [seen]
          simp only [Visit.values, Visit.diagnostics, Visit.bytes, List.append_nil]
          exact ih _ _ walksOn (by omega)

/-! ## Consecutive calls -/

/-- A cursor that can be asked for the next batch. -/
structure Ready (plugin : Plugin) (cursor : StringCursor) : Prop where
  /-- It stands in the plugin. -/
  walks : cursor.Walks plugin
  /-- No call failed. -/
  sound : cursor.failed = false
  /-- No error waits. -/
  free : cursor.pendingError = none

/-- A new cursor is ready, with all records ahead. -/
theorem Opening.ready (decoder : StringDecoder row) (plugin : Plugin) (opening : Opening) :
    Ready plugin (opening.cursor decoder) ∧
      (opening.cursor decoder).remaining plugin = plugin.records := by
  cases opening with
  | plain validateNontext =>
    exact ⟨⟨walks_start (new decoder validateNontext) 0, rfl, rfl⟩,
      remaining_new (new decoder validateNontext)⟩
  | preserving =>
    exact ⟨⟨walks_start (newPreservingNontext decoder) 0, rfl, rfl⟩,
      remaining_new (newPreservingNontext decoder)⟩

/-- The cursor while a call is running, which counts as failed until it ends well. -/
def running (cursor : StringCursor) : StringCursor := { cursor with failed := true }

/-- The answers of a ready cursor: a batch that leaves it ready, a batch with the error behind it
waiting, or an error. -/
inductive Answer (decoder : StringDecoder row) (plugin : Plugin) (cursor : StringCursor)
    (limit : Nat) : Except FfiError (StringBatch row) × StringCursor → Prop where
  /-- A block of records. -/
  | batch {block : List Record} {batch : StringBatch row} {root : Nat} {positions : List Nat}
      (ready : Ready plugin (cursor.movedTo root positions))
      (ahead : cursor.remaining plugin =
        block ++ (cursor.movedTo root positions).remaining plugin)
      (harmless : ∀ record ∈ block, (cursor.visit decoder plugin record).error = none)
      (gives : batch.values =
        block.flatMap fun record => (cursor.visit decoder plugin record).values)
      (notes : batch.diagnostics =
        block.flatMap fun record => (cursor.visit decoder plugin record).diagnostics)
      (done : batch.done → (cursor.movedTo root positions).remaining plugin = [])
      (progress : batch.done = false → block ≠ []) :
      Answer decoder plugin cursor limit (.ok batch, cursor.movedTo root positions)
  /-- A block of records with values, and a fatal one. -/
  | held {block rest : List Record} {record : Record} {batch : StringBatch row} {error : FfiError}
      {next : StringCursor} (ahead : cursor.remaining plugin = block ++ record :: rest)
      (harmless : ∀ record ∈ block, (cursor.visit decoder plugin record).error = none)
      (gives : batch.values =
        block.flatMap fun record => (cursor.visit decoder plugin record).values)
      (notes : batch.diagnostics =
        block.flatMap fun record => (cursor.visit decoder plugin record).diagnostics)
      (more : batch.done = false)
      (fatal : (cursor.visit decoder plugin record).error = some error)
      (failed : next.failed = true) (waits : next.pendingError = some error) :
      Answer decoder plugin cursor limit (.ok batch, next)
  /-- A block of records without values, and a fatal one. -/
  | failed {block rest : List Record} {record : Record} {error : FfiError} {next : StringCursor}
      (ahead : cursor.remaining plugin = block ++ record :: rest)
      (harmless : ∀ record ∈ block, (cursor.visit decoder plugin record).error = none)
      (empty : ∀ record ∈ block, (cursor.visit decoder plugin record).values = [])
      (fatal : (cursor.visit decoder plugin record).error = some error)
      (reached : block.length < limit)
      (light : (block.map fun record => (cursor.visit decoder plugin record).bytes).sum <
        BYTE_LIMIT)
      (failed : next.failed = true) (free : next.pendingError = none) :
      Answer decoder plugin cursor limit (.error error, next)

/-- A ready cursor answers with the batch of the loop. -/
theorem nextJson_of_ok {batch : StringBatch row} (ready : Ready plugin cursor) (low : 1 ≤ limit)
    (high : limit ≤ 256)
    (ends : fill decoder plugin limit [] [] 0 cursor.running = (.ok batch, moved)) :
    cursor.nextJson decoder plugin limit =
      (.ok batch, { moved with failed := moved.pendingError.isSome }) := by
  have allowed : ¬ (¬ (1 ≤ limit ∧ limit ≤ 256) ∨ cursor.failed = true) := by
    simp [low, high, ready.sound]
  unfold running at ends
  simp only [nextJson, ready.free] at ends ⊢
  rw [if_neg allowed, ends]

/-- A batch without an error leaves the cursor as it was, but for its place. -/
theorem nextJson_of_delivered {batch : StringBatch row} {root : Nat} {positions : List Nat}
    (ready : Ready plugin cursor) (low : 1 ≤ limit) (high : limit ≤ 256)
    (ends : fill decoder plugin limit [] [] 0 cursor.running =
      (.ok batch, cursor.running.movedTo root positions)) :
    cursor.nextJson decoder plugin limit = (.ok batch, cursor.movedTo root positions) := by
  rw [nextJson_of_ok ready low high ends]
  simp [movedTo, running, ready.free, ready.sound]

/-- A ready cursor answers with the error of the loop. -/
theorem nextJson_of_error {error : FfiError} (ready : Ready plugin cursor) (low : 1 ≤ limit)
    (high : limit ≤ 256)
    (ends : fill decoder plugin limit [] [] 0 cursor.running = (.error error, moved)) :
    cursor.nextJson decoder plugin limit = (.error error, moved) := by
  have allowed : ¬ (¬ (1 ≤ limit ∧ limit ≤ 256) ∨ cursor.failed = true) := by
    simp [low, high, ready.sound]
  unfold running at ends
  simp only [nextJson, ready.free] at ends ⊢
  rw [if_neg allowed, ends]

/-- Every call to a ready cursor has one of the answers. -/
theorem answer_nextJson (decoder : StringDecoder row) (ready : Ready plugin cursor)
    (low : 1 ≤ limit) (high : limit ≤ 256) :
    Answer decoder plugin cursor limit (cursor.nextJson decoder plugin limit) := by
  have walks : cursor.running.Walks plugin := ready.walks
  have loop := filled decoder limit [] [] walks (show 0 < BYTE_LIMIT by decide)
  generalize ends : fill decoder plugin limit [] [] 0 cursor.running = result at loop
  cases loop with
  | delivered walks ahead harmless gives notes done progress =>
    rw [nextJson_of_delivered ready low high ends]
    exact .batch ⟨walks, ready.sound, ready.free⟩ ahead harmless gives notes done
      (progress (by omega))
  | held ahead harmless gives notes more fatal =>
    rw [nextJson_of_ok ready low high ends]
    exact .held ahead harmless gives notes more fatal rfl rfl
  | failed ahead harmless _ empty fatal reached light =>
    rw [nextJson_of_error ready low high ends]
    rw [Nat.zero_add] at light
    exact .failed ahead harmless empty fatal reached light rfl ready.free

/-- Every call to a failed cursor is refused. -/
theorem calls_of_failed (failed : cursor.failed = true) (free : cursor.pendingError = none)
    (limits : List Nat) : ∀ result ∈ cursor.calls decoder plugin limits, result = .error refused := by
  induction limits with
  | nil => simp [calls]
  | cons limit limits ih =>
    have answer : cursor.nextJson decoder plugin limit = (.error refused, cursor) := by
      simp [nextJson, free, failed]
    rw [calls, answer]
    exact List.forall_mem_cons.mpr ⟨rfl, ih⟩

/-- An error that waits is the answer to the next call, and later ones are refused. -/
theorem calls_of_pending {error : FfiError} (pending : cursor.pendingError = some error) (limits : List Nat) :
    cursor.calls decoder plugin (limit :: limits) =
      .error error :: { cursor with pendingError := none }.calls decoder plugin limits := by
  have answer : cursor.nextJson decoder plugin limit =
      (.error error, { cursor with pendingError := none }) := by simp [nextJson, pending]
  rw [calls, answer]

/-- A batch that ends with an error and loses no diagnostic had none. -/
theorem diagnostics_of_failed {visit : Record → Visit row} {block rest : List Record}
    {error : FfiError} (safe : ¬ LosesDiagnostic visit (block ++ record :: rest) limit)
    (harmless : ∀ record ∈ block, (visit record).error = none)
    (empty : ∀ record ∈ block, (visit record).values = [])
    (fatal : (visit record).error = some error) (reached : block.length < limit)
    (light : (block.map fun record => (visit record).bytes).sum < BYTE_LIMIT) :
    (block.flatMap fun record => (visit record).diagnostics) = [] := by
  rw [List.flatMap_eq_nil_iff]
  intro lost member
  by_contra kept
  apply safe
  refine ⟨block, record, rest, rfl, ?_, ⟨lost, member, kept⟩, by simp [fatal], reached, light⟩
  exact fun record found => ⟨harmless record found, empty record found⟩

/-- A failed cursor is safe. -/
theorem safeRun_of_failed (failed : cursor.failed = true) (limits : List Nat) :
    SafeRun decoder plugin limits cursor := by
  induction limits generalizing cursor with
  | nil => trivial
  | cons limit limits ih =>
    refine ⟨fun sound => absurd failed (by simp [sound]), ih ?_⟩
    cases pending : cursor.pendingError with
    | none => simp [nextJson, pending, failed]
    | some error => simp [nextJson, pending, failed]

/-- Consecutive calls cut the records ahead into the blocks of their batches. -/
theorem delivery_calls {limits : List Nat} (ready : Ready plugin cursor)
    (allowed : ∀ limit ∈ limits, 1 ≤ limit ∧ limit ≤ 256)
    (safe : SafeRun decoder plugin limits cursor) :
    Delivery (cursor.visit decoder plugin) (cursor.remaining plugin)
      (cursor.calls decoder plugin limits) := by
  induction limits generalizing cursor with
  | nil => exact .stopped _
  | cons limit limits ih =>
    obtain ⟨⟨low, high⟩, others⟩ := List.forall_mem_cons.mp allowed
    obtain ⟨keeps, safe⟩ := safe
    have answer := answer_nextJson decoder ready low high
    rw [calls]
    generalize cursor.nextJson decoder plugin limit = result at answer safe ⊢
    cases answer with
    | batch readyOn ahead harmless gives notes done _ =>
      rw [ahead]
      exact .batch harmless gives notes done (ih readyOn others safe)
    | held ahead harmless gives notes more fatal failed waits =>
      rw [ahead]
      refine .batch harmless gives notes (by simp [more]) ?_
      cases limits with
      | nil => exact .stopped _
      | cons next limits =>
        rw [calls_of_pending waits, ← List.nil_append (_ :: _)]
        refine .failed (by simp) rfl rfl fatal ?_
        apply calls_of_failed
        · exact failed
        · rfl
    | failed ahead harmless empty fatal reached light failed free =>
      have safe := keeps ready.sound
      rw [ahead] at safe ⊢
      exact .failed harmless (List.flatMap_eq_nil_iff.mpr empty)
        (diagnostics_of_failed safe harmless empty fatal reached light) fatal
        (calls_of_failed failed free limits)

/-- One call more than there are records ahead is enough to come to an end. -/
theorem ended_calls {limits : List Nat} (ready : Ready plugin cursor)
    (allowed : ∀ limit ∈ limits, 1 ≤ limit ∧ limit ≤ 256)
    (enough : (cursor.remaining plugin).length < limits.length) :
    Ended (cursor.calls decoder plugin limits) := by
  induction limits generalizing cursor with
  | nil => simp at enough
  | cons limit limits ih =>
    obtain ⟨⟨low, high⟩, others⟩ := List.forall_mem_cons.mp allowed
    have answer := answer_nextJson decoder ready low high
    rw [calls]
    generalize cursor.nextJson decoder plugin limit = result at answer ⊢
    cases answer with
    | @batch block batch _ _ readyOn ahead _ _ _ _ progress =>
      by_cases last : batch.done = true
      · exact ⟨_, List.mem_cons_self, by simpa using last⟩
      · have shorter := List.length_pos_iff.mpr (progress (by simpa using last))
        rw [ahead, List.length_append, List.length_cons] at enough
        obtain ⟨result, member, final⟩ := ih readyOn others (by omega)
        exact ⟨result, List.mem_cons_of_mem _ member, final⟩
    | held ahead _ _ _ _ _ _ waits =>
      rw [ahead, List.length_append, List.length_cons, List.length_cons] at enough
      cases limits with
      | nil => simp at enough
      | cons next limits =>
        rw [calls_of_pending waits]
        exact ⟨_, List.mem_cons_of_mem _ List.mem_cons_self, by simp⟩
    | failed => exact ⟨_, List.mem_cons_self, by simp⟩

/-! ## The whole extraction -/

/-- Harmless records in front of a list put their strings in front of its strings. -/
theorem extraction_append {visit : Record → Visit row} {block : List Record} (rest : List Record)
    (harmless : ∀ record ∈ block, (visit record).error = none) :
    Extraction.of visit (block ++ rest) =
      ⟨(block.flatMap fun record => (visit record).values) ++ (Extraction.of visit rest).values,
        (block.flatMap fun record => (visit record).diagnostics) ++
          (Extraction.of visit rest).diagnostics, (Extraction.of visit rest).error⟩ := by
  induction block with
  | nil => rfl
  | cons record block ih =>
    obtain ⟨first, others⟩ := List.forall_mem_cons.mp harmless
    simp only [List.cons_append, Extraction.of, first, ih others, List.flatMap_cons,
      List.append_assoc]

/-- Results that are all refusals have no strings. -/
theorem values_of_refused {results : List (Except FfiError (StringBatch row))}
    (later : ∀ result ∈ results, result = .error refused) :
    valuesOf results = [] ∧ diagnosticsOf results = [] := by
  refine ⟨List.flatMap_eq_nil_iff.mpr ?_, List.flatMap_eq_nil_iff.mpr ?_⟩
  all_goals
    intro result member
    rw [later result member]
    rfl

/-- With no records left, no call has strings or an error. -/
theorem Delivery.of_nil {visit : Record → Visit row} {records : List Record}
    {results : List (Except FfiError (StringBatch row))} (delivery : Delivery visit records results)
    (none : records = []) :
    valuesOf results = [] ∧ diagnosticsOf results = [] ∧ errorOf results = .none := by
  induction delivery with
  | stopped => exact ⟨rfl, rfl, rfl⟩
  | batch _ gives notes _ _ ih =>
    obtain ⟨rfl, rfl⟩ := List.append_eq_nil_iff.mp none
    obtain ⟨values, diagnostics, error⟩ := ih rfl
    refine ⟨?_, ?_, error⟩
    · rw [valuesOf, List.flatMap_cons]
      exact List.append_eq_nil_iff.mpr ⟨gives, values⟩
    · rw [diagnosticsOf, List.flatMap_cons]
      exact List.append_eq_nil_iff.mpr ⟨notes, diagnostics⟩
  | failed => simp at none

/-- Calls that came to an end handed out the whole extraction. -/
theorem Delivery.complete {visit : Record → Visit row} {records : List Record}
    {results : List (Except FfiError (StringBatch row))} (delivery : Delivery visit records results)
    (ended : Ended results) :
    valuesOf results = (Extraction.of visit records).values ∧
      diagnosticsOf results = (Extraction.of visit records).diagnostics ∧
      errorOf results = (Extraction.of visit records).error := by
  induction delivery with
  | stopped =>
    obtain ⟨_, member, _⟩ := ended
    exact absurd member List.not_mem_nil
  | @batch block rest batch results harmless gives notes done later ih =>
    have tail : valuesOf results = (Extraction.of visit rest).values ∧
        diagnosticsOf results = (Extraction.of visit rest).diagnostics ∧
        errorOf results = (Extraction.of visit rest).error := by
      obtain ⟨result, member, final⟩ := ended
      rcases List.mem_cons.mp member with rfl | behind
      · have nothing := done (final batch rfl)
        rw [nothing]
        exact later.of_nil nothing
      · exact ih ⟨result, behind, final⟩
    rw [extraction_append rest harmless]
    refine ⟨?_, ?_, tail.2.2⟩
    · rw [valuesOf, List.flatMap_cons]
      exact congrArg₂ (· ++ ·) gives tail.1
    · rw [diagnosticsOf, List.flatMap_cons]
      exact congrArg₂ (· ++ ·) notes tail.2.1
  | @failed block rest record error results harmless values diagnostics fatal later =>
    obtain ⟨noValues, noDiagnostics⟩ := values_of_refused later
    have stop : Extraction.of visit (record :: rest) = ⟨[], [], some error⟩ := by
      simp only [Extraction.of, fatal]
    rw [extraction_append _ harmless, stop, values, diagnostics]
    exact ⟨noValues, noDiagnostics, rfl⟩

/-- A run that loses no diagnostic is faithful. -/
theorem Faithful.of_safe {opening : Opening} {limits : List Nat}
    (allowed : ∀ limit ∈ limits, 1 ≤ limit ∧ limit ≤ 256)
    (safe : SafeRun decoder plugin limits (opening.cursor decoder)) :
    Faithful decoder plugin (opening.cursor decoder) limits := by
  obtain ⟨ready, all⟩ := Opening.ready decoder plugin opening
  have delivery := delivery_calls ready allowed safe
  rw [all] at delivery
  refine ⟨delivery, fun ended => (delivery.complete ended).1,
    fun ended => (delivery.complete ended).2.1, fun ended => (delivery.complete ended).2.2, ?_⟩
  intro enough
  exact ended_calls ready allowed (by rwa [all])

/-! ## The lost diagnostics -/

/-- The last pass of a loop ends well at a harmless record. -/
theorem fillVisit_last (decoder : StringDecoder row) (plugin : Plugin) (cursor : StringCursor)
    {seen : Visit row} (harmless : seen.error = none) :
    ∃ batch, fillVisit decoder plugin 0 [] [] 0 cursor seen = (.ok batch, cursor) := by
  cases seen with
  | skipped => exact ⟨_, rfl⟩
  | kept diagnostic => exact ⟨_, rfl⟩
  | fatal error => exact absurd harmless (by simp [Visit.error])
  | decoded rows size =>
    by_cases full : BYTE_LIMIT ≤ 0 + size ∨ STRING_LIMIT ≤ ([] ++ rows).length
    · exact ⟨_, if_pos full⟩
    · exact ⟨_, if_neg full⟩

/-- A record without values does not end the loop before the limit on bytes. -/
theorem fillVisit_empty {seen : Visit row} (harmless : seen.error = none) (empty : seen.values = [])
    (light : bytes + seen.bytes < BYTE_LIMIT) :
    fillVisit decoder plugin limit [] diagnostics bytes cursor seen =
      fill decoder plugin limit [] (diagnostics ++ seen.diagnostics) (bytes + seen.bytes) cursor := by
  cases seen with
  | skipped => simp [fillVisit, Visit.diagnostics, Visit.bytes]
  | kept diagnostic => simp [fillVisit, Visit.diagnostics, Visit.bytes]
  | fatal error => exact absurd harmless (by simp [Visit.error])
  | decoded rows size =>
    obtain rfl : rows = [] := empty
    have room : ¬ (BYTE_LIMIT ≤ bytes + size ∨ STRING_LIMIT ≤ ([] : List row).length) := by
      have strings : ¬ STRING_LIMIT ≤ ([] : List row).length := by simp [STRING_LIMIT]
      have payload : bytes + size < BYTE_LIMIT := light
      omega
    simp only [fillVisit, Visit.diagnostics, Visit.bytes, List.append_nil]
    rw [if_neg room]

/-- A loop goes past harmless records without values and ends with the error behind them. -/
theorem fill_failed {block rest : List Record} {error : FfiError}
    (diagnostics : List StringDiagnostic) (walks : cursor.Walks plugin)
    (ahead : cursor.remaining plugin = block ++ record :: rest)
    (empty : ∀ record ∈ block, (cursor.visit decoder plugin record).error = none ∧
      (cursor.visit decoder plugin record).values = [])
    (fatal : (cursor.visit decoder plugin record).error = some error)
    (reached : block.length < limit)
    (light : bytes + (block.map fun record => (cursor.visit decoder plugin record).bytes).sum <
      BYTE_LIMIT) :
    ∃ root positions, fill decoder plugin limit [] diagnostics bytes cursor =
      (.error error, cursor.movedTo root positions) := by
  induction block generalizing cursor diagnostics bytes limit with
  | nil =>
    obtain ⟨passes, rfl⟩ := Nat.exists_eq_add_of_lt reached
    obtain ⟨root, positions, pass, _⟩ := fill_succ decoder passes [] diagnostics bytes walks ahead
    cases seen : cursor.visit decoder plugin record with
    | fatal reason =>
      rw [seen] at fatal pass
      obtain rfl : reason = error := Option.some.inj fatal
      exact ⟨root, positions, by simpa [fillVisit] using pass⟩
    | skipped => exact absurd fatal (by simp [seen, Visit.error])
    | kept diagnostic => exact absurd fatal (by simp [seen, Visit.error])
    | decoded rows size => exact absurd fatal (by simp [seen, Visit.error])
  | cons visited block ih =>
    obtain ⟨⟨harmless, none⟩, others⟩ := List.forall_mem_cons.mp empty
    cases limit with
    | zero => simp at reached
    | succ limit =>
      obtain ⟨root, positions, pass, walksOn, behind⟩ :=
        fill_succ decoder limit [] diagnostics bytes walks ahead
      rw [List.map_cons, List.sum_cons, ← Nat.add_assoc] at light
      rw [fillVisit_empty harmless none (by omega)] at pass
      obtain ⟨nextRoot, nextPositions, result⟩ := ih (diagnostics ++ _) walksOn behind others fatal
        (Nat.lt_of_succ_lt_succ reached) light
      exact ⟨nextRoot, nextPositions, pass.trans result⟩

/-- A call that loses a diagnostic delivers nothing, and neither do the later ones. -/
theorem calls_of_loses (ready : Ready plugin cursor) (low : 1 ≤ limit) (high : limit ≤ 256)
    (loses : LosesDiagnostic (cursor.visit decoder plugin) (cursor.remaining plugin) limit)
    (limits : List Nat) :
    Ended (cursor.calls decoder plugin (limit :: limits)) ∧
      diagnosticsOf (cursor.calls decoder plugin (limit :: limits)) ≠
        (Extraction.of (cursor.visit decoder plugin) (cursor.remaining plugin)).diagnostics := by
  obtain ⟨block, fatalRecord, after, ahead, empty, ⟨lost, member, kept⟩, fatal, reached, light⟩ := loses
  obtain ⟨error, fatal⟩ := Option.ne_none_iff_exists'.mp fatal
  have walks : cursor.running.Walks plugin := ready.walks
  rw [← Nat.zero_add (List.sum _)] at light
  obtain ⟨root, positions, loop⟩ := fill_failed [] walks ahead empty fatal reached light
  rw [calls, nextJson_of_error ready low high loop]
  refine ⟨⟨_, List.mem_cons_self, by simp⟩, ?_⟩
  have refusals : ∀ result ∈ (cursor.running.movedTo root positions).calls decoder plugin limits,
      result = .error refused := by
    apply calls_of_failed
    · rfl
    · exact ready.free
  have nothing : diagnosticsOf (.error error ::
      (cursor.running.movedTo root positions).calls decoder plugin limits) = [] :=
    (values_of_refused refusals).2
  rw [nothing, ahead, extraction_append _ fun record found => (empty record found).1]
  intro same
  have none := List.flatMap_eq_nil_iff.mp (List.append_eq_nil_iff.mp same.symm).1
  exact kept (none lost member)

/-- A run whose diagnostics are complete lost none. -/
theorem safeRun_of_diagnostics {limits : List Nat} (ready : Ready plugin cursor)
    (allowed : ∀ limit ∈ limits, 1 ≤ limit ∧ limit ≤ 256)
    (complete : Ended (cursor.calls decoder plugin limits) →
      diagnosticsOf (cursor.calls decoder plugin limits) =
        (Extraction.of (cursor.visit decoder plugin) (cursor.remaining plugin)).diagnostics) :
    SafeRun decoder plugin limits cursor := by
  induction limits generalizing cursor with
  | nil => trivial
  | cons limit limits ih =>
    obtain ⟨⟨low, high⟩, others⟩ := List.forall_mem_cons.mp allowed
    have keeps : ¬ LosesDiagnostic (cursor.visit decoder plugin) (cursor.remaining plugin) limit := by
      intro loses
      obtain ⟨ended, incomplete⟩ := calls_of_loses ready low high loses limits
      exact incomplete (complete ended)
    refine ⟨fun _ => keeps, ?_⟩
    have answer := answer_nextJson decoder ready low high
    rw [calls] at complete
    generalize cursor.nextJson decoder plugin limit = result at answer complete ⊢
    cases answer with
    | batch readyOn ahead harmless _ notes _ _ =>
      apply ih readyOn others
      intro ended
      obtain ⟨result, member, final⟩ := ended
      have whole := complete ⟨result, List.mem_cons_of_mem _ member, final⟩
      rw [ahead, extraction_append _ harmless, diagnosticsOf, List.flatMap_cons] at whole
      exact List.append_cancel_left ((congrArg (· ++ _) notes.symm).trans whole)
    | held _ _ _ _ _ _ failed _ => exact safeRun_of_failed failed limits
    | failed _ _ _ _ _ _ failed _ => exact safeRun_of_failed failed limits

/-- No run loses a diagnostic where every place to start a batch from keeps them. -/
theorem safeRun_of_keeps {limits : List Nat} (ready : Ready plugin cursor)
    (allowed : ∀ limit ∈ limits, 1 ≤ limit ∧ limit ≤ 256)
    (keeps : KeepsDiagnostics (cursor.visit decoder plugin) (cursor.remaining plugin)) :
    SafeRun decoder plugin limits cursor := by
  induction limits generalizing cursor with
  | nil => trivial
  | cons limit limits ih =>
    obtain ⟨⟨low, high⟩, others⟩ := List.forall_mem_cons.mp allowed
    refine ⟨fun _ loses => ?_, ?_⟩
    · obtain ⟨block, fatalRecord, after, ahead, empty, kept, fatal, reached, light⟩ := loses
      exact keeps [] _ rfl (by simp)
        ⟨block, fatalRecord, after, ahead, empty, kept, fatal, by omega, light⟩
    · have answer := answer_nextJson decoder ready low high
      generalize cursor.nextJson decoder plugin limit = result at answer ⊢
      cases answer with
      | @batch block _ _ _ readyOn ahead harmless _ _ _ _ =>
        apply ih readyOn others
        intro before rest split others
        apply keeps (block ++ before) rest (by rw [ahead, split, List.append_assoc])
        intro record member
        rcases List.mem_append.mp member with first | second
        · exact harmless record first
        · exact others record second
      | held _ _ _ _ _ _ failed _ => exact safeRun_of_failed failed limits
      | failed _ _ _ _ _ _ failed _ => exact safeRun_of_failed failed limits

/-- A safe run that starts with calls for one record each is safe behind the harmless records that
they go past. -/
theorem safeRun_single {before rest : List Record} {limits : List Nat} (ready : Ready plugin cursor)
    (ahead : cursor.remaining plugin = before ++ rest)
    (harmless : ∀ record ∈ before, (cursor.visit decoder plugin record).error = none)
    (safe : SafeRun decoder plugin (List.replicate before.length 1 ++ limits) cursor) :
    ∃ root positions, SafeRun decoder plugin limits (cursor.movedTo root positions) ∧
      (cursor.movedTo root positions).remaining plugin = rest := by
  induction before generalizing cursor with
  | nil => exact ⟨cursor.root, cursor.positions, safe, ahead⟩
  | cons record before ih =>
    obtain ⟨first, others⟩ := List.forall_mem_cons.mp harmless
    have start : cursor.running.Walks plugin := ready.walks
    obtain ⟨root, positions, pass, walks, behind⟩ := fill_succ decoder 0 [] [] 0 start ahead
    obtain ⟨batch, last⟩ :=
      fillVisit_last decoder plugin (cursor.running.movedTo root positions) first
    have answer := nextJson_of_delivered ready (Nat.le_refl 1) (by decide) (pass.trans last)
    have readyOn : Ready plugin (cursor.movedTo root positions) :=
      ⟨walks, ready.sound, ready.free⟩
    have safeOn := safe.2
    rw [answer] at safeOn
    obtain ⟨nextRoot, nextPositions, safe, ahead⟩ := ih readyOn behind others safeOn
    exact ⟨nextRoot, nextPositions, safe, ahead⟩

/-- A run hands out what the extraction record by record gives exactly when none of its calls loses
a diagnostic. All runs do exactly when no batch of the largest size can lose one. -/
theorem faithful_iff (decoder : StringDecoder row) (plugin : Plugin) (opening : Opening) :
    (∀ limits, (∀ limit ∈ limits, 1 ≤ limit ∧ limit ≤ 256) →
      (Faithful decoder plugin (opening.cursor decoder) limits ↔
        SafeRun decoder plugin limits (opening.cursor decoder))) ∧
    ((∀ limits, (∀ limit ∈ limits, 1 ≤ limit ∧ limit ≤ 256) →
      Faithful decoder plugin (opening.cursor decoder) limits) ↔
        KeepsDiagnostics ((opening.cursor decoder).visit decoder plugin) plugin.records) := by
  obtain ⟨ready, all⟩ := Opening.ready decoder plugin opening
  have each : ∀ limits, (∀ limit ∈ limits, 1 ≤ limit ∧ limit ≤ 256) →
      (Faithful decoder plugin (opening.cursor decoder) limits ↔
        SafeRun decoder plugin limits (opening.cursor decoder)) := by
    intro limits allowed
    refine ⟨fun faithful => ?_, .of_safe allowed⟩
    apply safeRun_of_diagnostics ready allowed
    rw [all]
    exact faithful.diagnostics
  refine ⟨each, fun faithful before rest split harmless loses => ?_, fun keeps limits allowed => ?_⟩
  · have allowed : ∀ limit ∈ List.replicate before.length 1 ++ [256], 1 ≤ limit ∧ limit ≤ 256 := by
      intro limit member
      rcases List.mem_append.mp member with single | last
      · rw [List.eq_of_mem_replicate single]
        decide
      · rw [List.mem_singleton.mp last]
        decide
    have safe := (each _ allowed).mp (faithful _ allowed)
    obtain ⟨root, positions, ⟨keeps, _⟩, ahead⟩ :=
      safeRun_single ready (all.trans split) harmless safe
    rw [ahead] at keeps
    exact keeps ready.sound loses
  · rw [each limits allowed]
    exact safeRun_of_keeps ready allowed (by rwa [all])

/-- The signature of global variables. -/
def globalSignature : Signature := ⟨⟨[0x47, 0x4C, 0x4F, 0x42], rfl⟩⟩

/-- The signature of books. -/
def bookSignature : Signature := ⟨⟨[0x42, 0x4F, 0x4F, 0x4B], rfl⟩⟩

/-- A decoder that reads the subrecords of a record and knows no translatable fields; globals have
no text. -/
def subrecordDecoder : StringDecoder String where
  textFree := [globalSignature]
  checkDecodable record _ := ((record.subrecords refuseInflate).mapError .core).map fun _ => ()
  rows record _ := ((record.subrecords refuseInflate).mapError .core).map fun _ => []
  display _ := "core error"

/-- A plugin with a global and a book in one group, both cut off inside a subrecord. -/
def cutRecords : Plugin where
  source := []
  ctx := .sse
  header := {
    record := .sample .TES4 []
    hedrVersion := 0
    recordCount := 2
    nextObjectId := ⟨2048⟩
    masters := []
    description := none }
  headerRange := ⟨0, 24⟩
  groups := [{
    header := {
      groupSize := 78
      label := .signature globalSignature
      groupType := .normal
      versionControl := 0
      unknown := 0 }
    sourceRange := none
    children :=
      [.leaf (.sample globalSignature [70, 78, 65]), .leaf (.sample bookSignature [70, 85, 76])] }]

/-- One call for two records reports the error of the book and drops the diagnostic of the global,
which an extraction record by record has. -/
theorem not_faithful_cutRecords :
    ¬ ∀ (decoder : StringDecoder String) (plugin : Plugin) (opening : Opening) (limits : List Nat),
      (∀ limit ∈ limits, 1 ≤ limit ∧ limit ≤ 256) →
      Faithful decoder plugin (opening.cursor decoder) limits := by
  intro faithful
  have run := faithful subrecordDecoder cutRecords .preserving [2] (by decide)
  have delivered : ∃ error, (Opening.preserving.cursor subrecordDecoder).calls subrecordDecoder
      cutRecords [2] = [.error error] := ⟨_, by rfl⟩
  obtain ⟨error, delivered⟩ := delivered
  have ended : Ended [(.error error : Except FfiError (StringBatch String))] :=
    ⟨_, List.mem_cons_self, by simp⟩
  have none := run.diagnostics (by rw [delivered]; exact ended)
  have records : cutRecords.records =
      [.sample globalSignature [70, 78, 65], .sample bookSignature [70, 85, 76]] := by
    rw [Plugin.records_eq]
    rfl
  rw [delivered, records] at none
  have one : (Extraction.of ((Opening.preserving.cursor subrecordDecoder).visit subrecordDecoder
      cutRecords) [.sample globalSignature [70, 78, 65],
        .sample bookSignature [70, 85, 76]]).diagnostics.length = 1 := by decide +kernel
  rw [← none] at one
  simp [diagnosticsOf, Except.toOption] at one

end Bethkit.StringCursor
