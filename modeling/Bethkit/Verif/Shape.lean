import Bethkit.Lib.PrefixCode
import Bethkit.Spec.Shape

/-!
# The structure hash reads the shape

The input of the digest is a prefix code of the shape: every text and every list stands behind its
length, every value behind the tag of its kind, and every other part has a fixed width. The codes
of the parts compose in the order in which the digest is fed. A digest is written injectively as
hexadecimal text, so equal hashes of inputs that SHA-256 tells apart are hashes of equal shapes.
-/

namespace Bethkit

open Lib

variable {left right : Field}

/-- A number that fits a `usize` fits eight bytes. -/
theorem IsUsize.fits {value : Nat} (sized : IsUsize value) : value < 256 ^ 8 := by
  unfold IsUsize at sized
  omega

/-- The number of bytes of a text is its size. -/
theorem length_strAsBytes (text : String) : (strAsBytes text).length = text.utf8ByteSize := by
  simp [strAsBytes]

/-- A number is read from its eight bytes. -/
theorem hashUsize_code {left right : Nat} (leftSized : IsUsize left) (rightSized : IsUsize right) :
    PrefixCode (hashUsize left) (hashUsize right) (left = right) :=
  .leBytes leftSized.fits rightSized.fits

/-- A text is read from its length and its bytes. -/
theorem hashText_code {left right : String} (leftSized : IsUsize left.utf8ByteSize)
    (rightSized : IsUsize right.utf8ByteSize) :
    PrefixCode (hashText left) (hashText right) (left = right) := by
  have leftFits := leftSized.fits
  have rightFits := rightSized.fits
  rw [← length_strAsBytes] at leftFits rightFits
  have framed := PrefixCode.framed leftFits rightFits
  rw [length_strAsBytes, length_strAsBytes] at framed
  exact framed.congr strAsBytes_injective.eq_iff

/-- A node identifier is read from its four bytes. -/
theorem u32ToLeBytes_code (left right : UInt32) :
    PrefixCode (u32ToLeBytes left) (u32ToLeBytes right) (left = right) := by
  have code : PrefixCode (u32ToLeBytes left) (u32ToLeBytes right) (left.toNat = right.toNat) :=
    .leBytes left.toNat_lt right.toNat_lt
  exact code.congr UInt32.toNat_inj

/-- A list of numbers is read from its length and its numbers. -/
theorem hashUsizes_code {lefts rights : List Nat} (leftSized : IsUsize lefts.length)
    (rightSized : IsUsize rights.length) (leftEach : ∀ left ∈ lefts, IsUsize left)
    (rightEach : ∀ right ∈ rights, IsUsize right) :
    PrefixCode (hashUsize lefts.length ++ lefts.flatMap hashUsize)
      (hashUsize rights.length ++ rights.flatMap hashUsize) (lefts = rights) := by
  have code := PrefixCode.counted leftSized.fits rightSized.fits fun left inLefts right inRights =>
    hashUsize_code (leftEach left inLefts) (rightEach right inRights)
  exact code.congr (by rw [List.forall₂_eq_eq_eq])

/-- A repeat scope is read from its path and its occurrence. -/
theorem hashScope_code {left right : RepeatScope} (leftSized : left.Sized)
    (rightSized : right.Sized) :
    PrefixCode (hashScope left) (hashScope right) (left = right) := by
  have occurrence : PrefixCode (leBytes 4 left.occurrence) (leBytes 4 right.occurrence)
      (left.occurrence = right.occurrence) := .leBytes leftSized.2 rightSized.2
  have code := (hashText_code leftSized.1 rightSized.1).append fun _ => occurrence
  apply code.congr
  cases left
  cases right
  simp

/-- A union selection is read from its schema path, its positions and its effective path. -/
theorem hashSelection_code {left right : ValueSelection} (leftSized : left.Sized)
    (rightSized : right.Sized) :
    PrefixCode (hashSelection left) (hashSelection right) (left = right) := by
  have path := hashText_code leftSized.schemaPath rightSized.schemaPath
  have indices := hashUsizes_code leftSized.depth rightSized.depth leftSized.arrayIndices
    rightSized.arrayIndices
  have effective := hashText_code leftSized.effectivePath rightSized.effectivePath
  have code := (path.append fun _ => indices).append fun _ => effective
  simp only [← List.append_assoc] at code
  apply code.congr
  cases left
  cases right
  simp [and_assoc]

mutual

/-- A value has its own shape. -/
theorem FieldValue.sameShape_refl (value : FieldValue) : value.SameShape value := by
  cases value with
  | struct fields => exact NamedValue.sameShapes_refl fields
  | array values => exact FieldValue.sameShapes_refl values
  | _ => trivial
termination_by structural value

/-- Members have their own shapes. -/
theorem NamedValue.sameShapes_refl (fields : List NamedValue) :
    NamedValue.SameShapes fields fields := by
  match fields with
  | [] => trivial
  | .mk nodeId path effectivePath name span value :: fields =>
    exact ⟨rfl, rfl, rfl, value.sameShape_refl, NamedValue.sameShapes_refl fields⟩
termination_by structural fields

/-- Elements have their own shapes. -/
theorem FieldValue.sameShapes_refl (values : List FieldValue) :
    FieldValue.SameShapes values values := by
  match values with
  | [] => trivial
  | value :: values => exact ⟨value.sameShape_refl, FieldValue.sameShapes_refl values⟩
termination_by structural values

end

/-- Values of one shape have the same kind. -/
theorem FieldValue.SameShape.kind {left right : FieldValue} (same : left.SameShape right) :
    hashKind left = hashKind right := by
  cases left <;> cases right <;> first | rfl | cases same

/-- What a digest holds behind the tag of a value. -/
def hashContents : FieldValue → Bytes
  | .struct fields => hashUsize fields.length ++ hashMembers fields
  | .array values => hashUsize values.length ++ hashElements values
  | _ => []

/-- A value is hashed as its tag and its contents. -/
theorem hashValue_eq (value : FieldValue) :
    hashValue value = [hashKind value] ++ hashContents value := by
  cases value <;> simp [hashValue, hashContents, hashKind]

/-- A value without members and elements. -/
def FieldValue.isScalar : FieldValue → Bool
  | .struct _ | .array _ => false
  | _ => true

/-- The contents of a scalar are empty, and values of its kind have its shape. -/
theorem hashContents_scalar {left right : FieldValue} (scalar : left.isScalar = true)
    (kind : hashKind left = hashKind right) :
    PrefixCode (hashContents left) (hashContents right) (left.SameShape right) := by
  have empty : hashContents left = [] ∧ hashContents right = [] ∧ left.SameShape right := by
    cases left with
    | struct fields => cases scalar
    | array values => cases scalar
    | _ => cases right <;> first | exact ⟨rfl, rfl, trivial⟩ | cases kind
  rw [empty.1, empty.2.1]
  exact PrefixCode.nil.congr (iff_of_true trivial empty.2.2)

/-- Contents that tell shapes apart make values that do. -/
theorem hashValue_code_of_contents {left right : FieldValue}
    (contents : hashKind left = hashKind right →
      PrefixCode (hashContents left) (hashContents right) (left.SameShape right)) :
    PrefixCode (hashValue left) (hashValue right) (left.SameShape right) := by
  have tag : PrefixCode [hashKind left] [hashKind right] ([hashKind left] = [hashKind right]) :=
    .of_length rfl
  rw [hashValue_eq, hashValue_eq]
  apply ((tag.congr List.singleton_inj).append contents).congr
  exact and_iff_right_of_imp FieldValue.SameShape.kind

/-- Structs of one shape have as many members. -/
theorem NamedValue.SameShapes.length_eq {lefts rights : List NamedValue}
    (same : NamedValue.SameShapes lefts rights) : lefts.length = rights.length := by
  induction lefts generalizing rights with
  | nil =>
    cases rights with
    | nil => rfl
    | cons right rights => cases same
  | cons left lefts ih =>
    cases left
    cases rights with
    | nil => cases same
    | cons right rights =>
      cases right
      rw [List.length_cons, List.length_cons, ih same.2.2.2.2]

/-- Arrays of one shape have as many elements. -/
theorem FieldValue.SameShapes.length_eq {lefts rights : List FieldValue}
    (same : FieldValue.SameShapes lefts rights) : lefts.length = rights.length := by
  induction lefts generalizing rights with
  | nil =>
    cases rights with
    | nil => rfl
    | cons right rights => cases same
  | cons left lefts ih =>
    cases rights with
    | nil => cases same
    | cons right rights => rw [List.length_cons, List.length_cons, ih same.2]

mutual

/-- The shape of a value is read from its digest input. -/
theorem hashValue_code (left right : FieldValue) (leftSized : left.Sized)
    (rightSized : right.Sized) :
    PrefixCode (hashValue left) (hashValue right) (left.SameShape right) := by
  apply hashValue_code_of_contents
  intro kind
  cases left with
  | struct lefts =>
    cases right with
    | struct rights =>
      have count := hashUsize_code leftSized.1 rightSized.1
      apply (count.append fun length =>
        hashMembers_code lefts rights length leftSized.2 rightSized.2).congr
      exact and_iff_right_of_imp NamedValue.SameShapes.length_eq
    | _ => cases kind
  | array lefts =>
    cases right with
    | array rights =>
      have count := hashUsize_code leftSized.1 rightSized.1
      apply (count.append fun length =>
        hashElements_code lefts rights length leftSized.2 rightSized.2).congr
      exact and_iff_right_of_imp FieldValue.SameShapes.length_eq
    | _ => cases kind
  | _ => exact hashContents_scalar rfl kind
termination_by structural left

/-- The shapes of members are read from their digest input. -/
theorem hashMembers_code (lefts rights : List NamedValue) (length : lefts.length = rights.length)
    (leftSized : NamedValue.AllSized lefts) (rightSized : NamedValue.AllSized rights) :
    PrefixCode (hashMembers lefts) (hashMembers rights) (NamedValue.SameShapes lefts rights) := by
  match lefts, rights with
  | [], [] => exact .nil
  | .mk leftId leftPath leftEffective leftName leftSpan left :: lefts,
    .mk rightId rightPath rightEffective rightName rightSpan right :: rights =>
    have path := hashText_code leftSized.1 rightSized.1
    have nodeId := u32ToLeBytes_code leftId rightId
    have effectivePath := hashText_code leftSized.2.1 rightSized.2.1
    have value := hashValue_code left right leftSized.2.2.1 rightSized.2.2.1
    have rest := hashMembers_code lefts rights (Nat.succ.inj length) leftSized.2.2.2
      rightSized.2.2.2
    have code := (((path.append fun _ => nodeId).append fun _ => effectivePath).append
      fun _ => value).append fun _ => rest
    exact code.congr (by simp only [NamedValue.SameShapes, and_assoc])
  | [], _ :: _ => cases length
  | _ :: _, [] => cases length
termination_by structural lefts

/-- The shapes of elements are read from their digest input. -/
theorem hashElements_code (lefts rights : List FieldValue) (length : lefts.length = rights.length)
    (leftSized : FieldValue.AllSized lefts) (rightSized : FieldValue.AllSized rights) :
    PrefixCode (hashElements lefts) (hashElements rights)
      (FieldValue.SameShapes lefts rights) := by
  match lefts, rights with
  | [], [] => exact .nil
  | left :: lefts, right :: rights =>
    have value := hashValue_code left right leftSized.1 rightSized.1
    have rest := hashElements_code lefts rights (Nat.succ.inj length) leftSized.2 rightSized.2
    exact value.append fun _ => rest
  | [], _ :: _ => cases length
  | _ :: _, [] => cases length
termination_by structural lefts

end

/-- A signature is read from its four bytes. -/
theorem signature_code (left right : Signature) :
    PrefixCode left.bytes.val right.bytes.val (left = right) := by
  have length : left.bytes.val.length = right.bytes.val.length := by
    rw [left.bytes.property, right.bytes.property]
  apply (PrefixCode.of_length length).congr
  constructor
  · intro same
    exact congrArg Signature.mk (Subtype.ext same)
  · intro same
    rw [same]

/-- A field is read from its digest input. -/
theorem hashField_code (leftSized : left.Sized) (rightSized : right.Sized) :
    PrefixCode (hashField left) (hashField right) (left.SameShape right) := by
  have index := hashUsize_code leftSized.subrecordIndex rightSized.subrecordIndex
  have path := hashText_code leftSized.path rightSized.path
  have effectivePath := hashText_code leftSized.effectivePath rightSized.effectivePath
  have nodeId := u32ToLeBytes_code left.nodeId right.nodeId
  have signature := signature_code left.subrecordSignature right.subrecordSignature
  have scopes := PrefixCode.counted leftSized.depth.fits rightSized.depth.fits
    fun scope inLeft other inRight =>
      hashScope_code (leftSized.repeatScopes scope inLeft) (rightSized.repeatScopes other inRight)
  have selections := PrefixCode.counted leftSized.selections.fits rightSized.selections.fits
    fun selection inLeft other inRight =>
      hashSelection_code (leftSized.valueSelections selection inLeft)
        (rightSized.valueSelections other inRight)
  have value := hashValue_code left.value right.value leftSized.value rightSized.value
  have code := ((((((index.append fun _ => path).append fun _ => effectivePath).append
    fun _ => nodeId).append fun _ => signature).append fun _ => scopes).append
    fun _ => selections).append fun _ => value
  simp only [← List.append_assoc] at code
  apply code.congr
  rw [List.forall₂_eq_eq_eq, List.forall₂_eq_eq_eq]
  constructor
  · intro parts
    obtain ⟨⟨⟨⟨⟨⟨⟨index, path⟩, effectivePath⟩, nodeId⟩, signature⟩, scopes⟩, selections⟩, value⟩ := parts
    exact ⟨index, path, effectivePath, nodeId, signature, scopes, selections, value⟩
  · intro same
    exact ⟨⟨⟨⟨⟨⟨⟨same.subrecordIndex, same.path⟩, same.effectivePath⟩, same.nodeId⟩,
      same.subrecordSignature⟩, same.repeatScopes⟩, same.valueSelections⟩, same.value⟩

/-- Two field lists have the same digest input exactly when they have the same shape. -/
theorem hashInput_eq_iff {left right : List Field} (leftSized : SizedFields left)
    (rightSized : SizedFields right) :
    hashInput left = hashInput right ↔ SameFields left right := by
  have fields := PrefixCode.counted leftSized.length.fits rightSized.length.fits
    fun field inLeft other inRight =>
      hashField_code (leftSized.each field inLeft) (rightSized.each other inRight)
  unfold hashInput
  rw [List.append_assoc, List.append_assoc, List.append_cancel_left_eq]
  exact fields.eq_iff

/-- Hexadecimal digits of small numbers differ. -/
theorem digitChar_injective : ∀ left < 16, ∀ right < 16,
    Nat.digitChar left = Nat.digitChar right → left = right := by
  decide

/-- A byte is read from its two hexadecimal digits. -/
theorem hexDigits_code (left right : UInt8) :
    PrefixCode [Nat.digitChar (left.toNat / 16), Nat.digitChar (left.toNat % 16)]
      [Nat.digitChar (right.toNat / 16), Nat.digitChar (right.toNat % 16)] (left = right) := by
  refine (PrefixCode.of_length ?_).congr ?_
  · rfl
  constructor
  · intro same
    have leftSmall := left.toNat_lt
    have rightSmall := right.toNat_lt
    have high := digitChar_injective (left.toNat / 16) (by omega) (right.toNat / 16) (by omega)
      (List.cons.inj same).1
    have low := digitChar_injective (left.toNat % 16) (by omega) (right.toNat % 16) (by omega)
      (List.cons.inj (List.cons.inj same).2).1
    apply UInt8.toNat_inj.mp
    omega
  · intro same
    rw [same]

/-- A digest is read from its hexadecimal text. -/
theorem schemaHashHex_injective : Function.Injective schemaHashHex := by
  intro left right same
  have digits := String.ofList_injective same
  have length : left.val.length = right.val.length := by rw [left.property, right.property]
  have code := PrefixCode.flatMap left.val right.val length fun byte _ other _ =>
    hexDigits_code byte other
  have bytes := code.eq_iff.mp digits
  rw [List.forall₂_eq_eq_eq] at bytes
  exact Subtype.ext bytes

/-- Structure hashes are equal exactly when the shapes are, for field lists whose digest inputs
SHA-256 tells apart. -/
theorem structureHash_eq_iff (sha256 : Sha256) {left right : List Field}
    (leftSized : SizedFields left) (rightSized : SizedFields right)
    (collisionFree : sha256 (hashInput left) = sha256 (hashInput right) →
      hashInput left = hashInput right) :
    structureHash sha256 left = structureHash sha256 right ↔ SameFields left right := by
  rw [← hashInput_eq_iff leftSized rightSized]
  constructor
  · intro same
    exact collisionFree (schemaHashHex_injective same)
  · intro same
    exact congrArg (fun input => schemaHashHex (sha256 input)) same

end Bethkit
