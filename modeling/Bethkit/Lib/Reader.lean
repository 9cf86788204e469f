import Mathlib

/-!
# Readers over a byte list with a position

A reader consumes bytes from a cursor and returns a value or an error. A grammar relates the
position at which a value starts, the bytes it occupies and the value itself; positions matter
because a value may record where it was found. `Reader.Exact` says that a reader accepts exactly
the byte runs of a grammar: every value it returns is described by the bytes it consumed, and
every described run is read, wherever it stands and whatever follows it. Exactness is composed
reader by reader.
-/

namespace Bethkit.Lib

/-- A byte list and the position of the next byte to read. -/
structure Cursor where
  /-- The whole input. -/
  data : List UInt8
  /-- Offset of the next byte. -/
  pos : Nat

/-- A byte list that carries its length. -/
abbrev Fixed (width : Nat) : Type := { bytes : List UInt8 // bytes.length = width }

/-- A value read from a cursor together with the advanced cursor, or an error. -/
def Reader (ε α : Type) : Type := Cursor → Except ε (α × Cursor)

namespace Reader

variable {ε ε' α β : Type}

/-- Return a value without reading. -/
protected def pure (value : α) : Reader ε α := fun cursor => .ok (value, cursor)

/-- Read with one reader, then with the reader chosen by its value. -/
protected def bind (first : Reader ε α) (next : α → Reader ε β) : Reader ε β := fun cursor =>
  match first cursor with
  | .error reason => .error reason
  | .ok (value, rest) => next value rest

instance : Monad (Reader ε) where
  pure := Reader.pure
  bind := Reader.bind

/-- Refuse the input. -/
def fail (reason : ε) : Reader ε α := fun _ => .error reason

/-- Continue with a result that was computed without reading. -/
def lift (result : Except ε α) : Reader ε α := fun cursor => result.map fun value => (value, cursor)

/-- Observe the cursor without moving it. -/
def inspect (observe : Cursor → α) : Reader ε α := fun cursor => .ok (observe cursor, cursor)

/-- Read a fixed number of bytes; a short input is refused with the reason for its position. -/
def take (width : Nat) (short : Nat → ε) : Reader ε (Fixed width) := fun cursor =>
  if fits : cursor.pos + width ≤ cursor.data.length then
    .ok (⟨(cursor.data.drop cursor.pos).take width, by
      rw [List.length_take, List.length_drop]
      omega⟩, ⟨cursor.data, cursor.pos + width⟩)
  else .error (short cursor.pos)

/-- Report errors of another kind. -/
def mapError (convert : ε → ε') (reader : Reader ε α) : Reader ε' α := fun cursor =>
  match reader cursor with
  | .error reason => .error (convert reason)
  | .ok result => .ok result

/-- A returned value leaves the cursor where it was. -/
@[simp]
theorem pure_apply (value : α) (cursor : Cursor) :
    (pure value : Reader ε α) cursor = .ok (value, cursor) := rfl

/-- The second reader of a sequence runs on the value and the cursor of the first. -/
theorem bind_apply (first : Reader ε α) (next : α → Reader ε β) (cursor : Cursor) :
    (first >>= next) cursor = match first cursor with
      | .error reason => .error reason
      | .ok (value, rest) => next value rest := rfl

/-- A sequence succeeds only when both of its readers do. -/
theorem bind_eq_ok {first : Reader ε α} {next : α → Reader ε β} {cursor : Cursor}
    {result : β × Cursor} :
    (first >>= next) cursor = .ok result ↔
      ∃ value rest, first cursor = .ok (value, rest) ∧ next value rest = .ok result := by
  rw [bind_apply]
  cases first cursor with
  | error reason => simp
  | ok found =>
    obtain ⟨value, rest⟩ := found
    simp

end Reader

/-- What a run of bytes starting at a position denotes. -/
abbrev Grammar (α : Type) : Type := Nat → List UInt8 → α → Prop

/-- A reader accepts exactly the runs of a grammar. -/
structure Reader.Exact {ε α : Type} (reader : Reader ε α) (grammar : Grammar α) : Prop where
  /-- A value read is described by the bytes consumed. -/
  sound : ∀ (before rest : List UInt8) (value : α) (next : Cursor),
    reader ⟨before ++ rest, before.length⟩ = .ok (value, next) →
      ∃ bytes after, rest = bytes ++ after ∧
        next = ⟨before ++ rest, before.length + bytes.length⟩ ∧
        grammar before.length bytes value
  /-- A described run is read and exactly its bytes are consumed. -/
  complete : ∀ (before bytes after : List UInt8) (value : α),
    grammar before.length bytes value →
      reader ⟨before ++ (bytes ++ after), before.length⟩ =
        .ok (value, ⟨before ++ (bytes ++ after), before.length + bytes.length⟩)

namespace Reader

variable {ε ε' α β : Type}

/-- Two grammars that describe the same runs have the same readers. -/
theorem Exact.congr {reader : Reader ε α} {grammar other : Grammar α}
    (exact : reader.Exact grammar)
    (same : ∀ start bytes value, grammar start bytes value ↔ other start bytes value) :
    reader.Exact other where
  sound before rest value next accepted := by
    obtain ⟨bytes, after, split, moved, described⟩ := exact.sound before rest value next accepted
    exact ⟨bytes, after, split, moved, (same _ _ _).mp described⟩
  complete before bytes after value described :=
    exact.complete before bytes after value ((same _ _ _).mpr described)

/-- A run that is read is determined by the input, wherever it ends. -/
theorem Exact.unique {reader : Reader ε α} {grammar : Grammar α} (exact : reader.Exact grammar)
    {first rest second others : List UInt8} {value other : α} (left : grammar 0 first value)
    (right : grammar 0 second other) (same : first ++ rest = second ++ others) :
    value = other ∧ first = second ∧ rest = others := by
  have read := exact.complete [] first rest value left
  rw [same, exact.complete [] second others other right] at read
  simp only [Except.ok.injEq, Prod.mk.injEq, Cursor.mk.injEq, List.length_nil, Nat.zero_add] at read
  obtain ⟨rfl, _, lengths⟩ := read
  exact ⟨rfl, List.append_inj same lengths.symm⟩

/-- A returned value occupies no bytes. -/
theorem exact_pure (value : α) :
    (pure value : Reader ε α).Exact (fun _ bytes found => bytes = [] ∧ found = value) where
  sound before rest found next accepted := by
    simp only [pure_apply, Except.ok.injEq, Prod.mk.injEq] at accepted
    obtain ⟨rfl, rfl⟩ := accepted
    exact ⟨[], rest, rfl, by simp, rfl, rfl⟩
  complete before bytes after found described := by
    obtain ⟨rfl, rfl⟩ := described
    simp

/-- No run is read by a refusal. -/
theorem exact_fail (reason : ε) : (fail reason : Reader ε α).Exact (fun _ _ _ => False) where
  sound _ _ _ _ accepted := by simp [fail] at accepted
  complete _ _ _ _ described := described.elim

/-- A computed value occupies no bytes. -/
theorem exact_lift (result : Except ε α) :
    (lift result).Exact (fun _ bytes found => bytes = [] ∧ result = .ok found) where
  sound before rest found next accepted := by
    cases result with
    | error reason => simp [lift, Except.map] at accepted
    | ok value =>
      simp only [lift, Except.map, Except.ok.injEq, Prod.mk.injEq] at accepted
      obtain ⟨rfl, rfl⟩ := accepted
      exact ⟨[], rest, rfl, by simp, rfl, rfl⟩
  complete before bytes after found described := by
    obtain ⟨rfl, rfl⟩ := described
    simp [lift, Except.map]

/-- The position of a cursor inside its input occupies no bytes. -/
theorem exact_position :
    (inspect Cursor.pos : Reader ε Nat).Exact (fun start bytes found => bytes = [] ∧ found = start)
    where
  sound before rest found next accepted := by
    simp only [inspect, Except.ok.injEq, Prod.mk.injEq] at accepted
    obtain ⟨rfl, rfl⟩ := accepted
    exact ⟨[], rest, rfl, by simp, rfl, rfl⟩
  complete before bytes after found described := by
    obtain ⟨rfl, rfl⟩ := described
    simp [inspect]

/-- A fixed number of bytes is read as itself. -/
theorem exact_take (width : Nat) (short : Nat → ε) :
    (take width short).Exact (fun _ bytes found => bytes = found.val) where
  sound before rest found next accepted := by
    simp only [take, List.drop_left] at accepted
    split at accepted
    · rename_i fits
      simp only [Except.ok.injEq, Prod.mk.injEq] at accepted
      obtain ⟨rfl, rfl⟩ := accepted
      have inside : width ≤ rest.length := by
        rw [List.length_append] at fits
        omega
      exact ⟨rest.take width, rest.drop width, (List.take_append_drop width rest).symm,
        by simp [Nat.min_eq_left inside], rfl⟩
    · simp at accepted
  complete before bytes after found described := by
    obtain ⟨kept, rfl⟩ := found
    obtain rfl : bytes = kept := described
    have fits : before.length + bytes.length ≤ (before ++ (bytes ++ after)).length := by
      simp only [List.length_append]
      omega
    simp only [take, fits, ↓reduceDIte, List.drop_left, List.take_left]

/-- Errors of another kind do not change what is read. -/
theorem Exact.mapError {reader : Reader ε α} {grammar : Grammar α} (exact : reader.Exact grammar)
    (convert : ε → ε') : (reader.mapError convert).Exact grammar where
  sound before rest value next accepted := by
    apply exact.sound before rest value next
    simp only [Reader.mapError] at accepted
    split at accepted
    · simp at accepted
    · rename_i result found
      rw [found]
      simpa using accepted
  complete before bytes after value described := by
    simp only [Reader.mapError, exact.complete before bytes after value described]

/-- A sequence reads a run of the first grammar followed by a run of the second. -/
theorem Exact.bind {first : Reader ε α} {next : α → Reader ε β} {grammar : Grammar α}
    {following : α → Grammar β} (head : first.Exact grammar)
    (tail : ∀ value, (next value).Exact (following value)) :
    (first >>= next).Exact (fun start bytes result => ∃ front back value,
      bytes = front ++ back ∧ grammar start front value ∧
        following value (start + front.length) back result) where
  sound before rest result last accepted := by
    obtain ⟨value, middle, firstRead, nextRead⟩ := bind_eq_ok.mp accepted
    obtain ⟨front, remaining, rfl, rfl, described⟩ := head.sound before rest value middle firstRead
    rw [← List.append_assoc, ← List.length_append] at nextRead
    obtain ⟨back, after, rfl, rfl, followed⟩ :=
      (tail value).sound (before ++ front) remaining result last nextRead
    rw [List.length_append] at followed
    exact ⟨front ++ back, after, by rw [List.append_assoc], by
      simp only [List.append_assoc, List.length_append, Nat.add_assoc],
      front, back, value, rfl, described, followed⟩
  complete before bytes after result described := by
    obtain ⟨front, back, value, rfl, firstDescribed, nextDescribed⟩ := described
    have firstRead := head.complete before front (back ++ after) value firstDescribed
    rw [← List.length_append] at nextDescribed
    have nextRead := (tail value).complete (before ++ front) back after result nextDescribed
    rw [bind_apply, List.append_assoc, firstRead]
    simp only [List.append_assoc, List.length_append] at nextRead
    simp only [nextRead, List.length_append, Nat.add_assoc]

/-- What follows an exact reader runs on what is left after a run of its grammar. -/
theorem Exact.bind_eq_ok_iff {first : Reader ε α} {grammar : Grammar α}
    (exact : first.Exact grammar) (next : α → Reader ε β) (before rest : List UInt8)
    (result : β × Cursor) :
    (first >>= next) ⟨before ++ rest, before.length⟩ = .ok result ↔
      ∃ bytes after value, rest = bytes ++ after ∧ grammar before.length bytes value ∧
        next value ⟨(before ++ bytes) ++ after, (before ++ bytes).length⟩ = .ok result := by
  rw [bind_eq_ok]
  constructor
  · rintro ⟨value, middle, firstRead, nextRead⟩
    obtain ⟨bytes, after, rfl, rfl, described⟩ := exact.sound before rest value middle firstRead
    exact ⟨bytes, after, value, rfl, described, by
      simpa only [List.append_assoc, List.length_append] using nextRead⟩
  · rintro ⟨bytes, after, value, rfl, described, nextRead⟩
    refine ⟨value, _, exact.complete before bytes after value described, ?_⟩
    simpa only [List.append_assoc, List.length_append] using nextRead

/-- Rewriting the value read does not change the bytes. -/
theorem Exact.map {reader : Reader ε α} {grammar : Grammar α} (exact : reader.Exact grammar)
    (convert : α → β) :
    (convert <$> reader).Exact (fun start bytes result =>
      ∃ value, grammar start bytes value ∧ result = convert value) := by
  refine (exact.bind (fun value => exact_pure (convert value))).congr ?_
  intro start bytes result
  constructor
  · rintro ⟨front, back, value, rfl, described, rfl, rfl⟩
    exact ⟨value, by simpa using described, rfl⟩
  · rintro ⟨value, described, rfl⟩
    exact ⟨bytes, [], value, by simp, described, rfl, rfl⟩

/-- A choice reads the runs of the branch taken. -/
theorem Exact.ite {condition : Prop} [Decidable condition] {yes no : Reader ε α}
    {grammar other : Grammar α} (taken : condition → yes.Exact grammar)
    (refused : ¬condition → no.Exact other) :
    (if condition then yes else no).Exact (fun start bytes value =>
      if condition then grammar start bytes value else other start bytes value) := by
  by_cases holds : condition
  · simpa only [holds, ↓reduceIte] using taken holds
  · simpa only [holds, ↓reduceIte] using refused holds

end Reader

end Bethkit.Lib

/-!
## Tables of equal entries

An entry that is read from exactly its encoding can be read a number of times in a row: a table is
read from exactly the encodings of its entries.
-/

namespace Bethkit.Lib.Reader

variable {ε α : Type}

/-- Read the same thing a number of times. -/
def times (reader : Reader ε α) : Nat → Reader ε (List α)
  | 0 => pure []
  | count + 1 => do
    let value ← reader
    let values ← times reader count
    pure (value :: values)

/-- A table is read from exactly the encodings of its entries. -/
theorem Exact.times {reader : Reader ε α} {encode : α → List UInt8}
    (exact : reader.Exact fun _ bytes value => bytes = encode value) (count : Nat) :
    (reader.times count).Exact fun _ bytes values =>
      bytes = values.flatMap encode ∧ values.length = count := by
  induction count with
  | zero =>
    refine (exact_pure []).congr fun start bytes values => ?_
    constructor
    · rintro ⟨rfl, rfl⟩
      exact ⟨rfl, rfl⟩
    · rintro ⟨rfl, none⟩
      obtain rfl := List.length_eq_zero_iff.mp none
      exact ⟨rfl, rfl⟩
  | succ count rest =>
    refine (exact.bind fun value => rest.bind fun values => exact_pure (value :: values)).congr
      fun start bytes values => ?_
    constructor
    · rintro ⟨_, _, value, rfl, rfl, _, _, others, rfl, ⟨rfl, sized⟩, rfl, rfl⟩
      exact ⟨by simp, by simp [sized]⟩
    · rintro ⟨rfl, sized⟩
      cases values with
      | nil => cases sized
      | cons value others =>
        exact ⟨encode value, others.flatMap encode, value, by simp, rfl, others.flatMap encode, [],
          others, by simp, ⟨rfl, Nat.succ.inj sized⟩, rfl, rfl⟩

end Bethkit.Lib.Reader

/-!
## Runs of bytes that a reader reads

A reader reads a run of bytes as a value if it does so wherever the run stands and whatever follows
it. Where a format is written by one program and read by another, this is all that is needed of the
reader, and it composes step by step.
-/

namespace Bethkit.Lib.Reader

variable {ε α β : Type}

/-- A run is read as a value, and exactly its bytes are consumed. -/
def Reads (reader : Reader ε α) (bytes : List UInt8) (value : α) : Prop :=
  ∀ before after, reader ⟨before ++ (bytes ++ after), before.length⟩ =
    .ok (value, ⟨before ++ (bytes ++ after), before.length + bytes.length⟩)

namespace Reads

/-- A run of an exact reader's grammar is read. -/
theorem of_exact {reader : Reader ε α} {grammar : List UInt8 → α → Prop}
    (exact : reader.Exact fun _ bytes value => grammar bytes value) {bytes : List UInt8} {value : α}
    (described : grammar bytes value) : Reads reader bytes value :=
  fun before after => exact.complete before bytes after value described

/-- A returned value is read from nothing. -/
theorem pure (value : α) : Reads (Pure.pure value : Reader ε α) [] value := fun _ _ => rfl

/-- A computed value is read from nothing. -/
theorem lift (value : α) : Reads (Reader.lift (.ok value) : Reader ε α) [] value := fun _ _ => rfl

/-- A sequence reads a run after a run. -/
theorem bind {first : Reader ε α} {next : α → Reader ε β} {front back : List UInt8} {value : α}
    {result : β} (head : Reads first front value) (tail : Reads (next value) back result) :
    Reads (first >>= next) (front ++ back) result := by
  intro before after
  have read := tail (before ++ front) after
  rw [List.append_assoc, List.length_append] at read
  rw [bind_apply, List.append_assoc, head before (back ++ after)]
  simp only [read, List.length_append, Nat.add_assoc]

/-- A sequence that ends without reading reads the run of its first step. -/
theorem bind_nil {first : Reader ε α} {next : α → Reader ε β} {front : List UInt8} {value : α}
    {result : β} (head : Reads first front value) (tail : Reads (next value) [] result) :
    Reads (first >>= next) front result := by
  have both := head.bind tail
  rwa [List.append_nil] at both

/-- A table is read from the runs of its entries. -/
theorem times {reader : Reader ε α} {runs : List (List UInt8)} {values : List α}
    (each : List.Forall₂ (Reads reader) runs values) :
    Reads (reader.times values.length) runs.flatten values := by
  induction each with
  | nil => exact pure []
  | cons here _ rest => exact here.bind (rest.bind_nil (pure _))

/-- A table is read from the runs of the items it is written for. -/
theorem table {γ : Type} {reader : Reader ε α} {items : List γ} {run : γ → List UInt8}
    {value : γ → α} (each : ∀ item ∈ items, Reads reader (run item) (value item)) :
    Reads (reader.times items.length) (items.flatMap run) (items.map value) := by
  induction items with
  | nil => exact pure []
  | cons item items rest =>
    have tail := rest fun other among => each other (List.mem_cons_of_mem _ among)
    exact (each item List.mem_cons_self).bind (tail.bind_nil (pure _))

/-- Errors of another kind do not change what is read. -/
theorem mapError {ε' : Type} {reader : Reader ε α} {bytes : List UInt8} {value : α}
    (reads : Reads reader bytes value) (convert : ε → ε') :
    Reads (reader.mapError convert) bytes value := by
  intro before after
  rw [Reader.mapError, reads before after]

end Reads

end Bethkit.Lib.Reader
