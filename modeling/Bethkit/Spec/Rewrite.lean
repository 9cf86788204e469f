import Bethkit.Core.Patcher

/-!
# What a rewritten tree is

Two descriptions of the bytes that a rewritten group tree should have, stated on the parsed tree
and the source alone: every record replaced by FormID, and every registered group in its
registered order. A group that is emitted again has its source header with another size.
-/

namespace Bethkit

open Lib

/-- A group header that differs from the original one in its size only. -/
structure Resized (original : Bytes) (size : Nat) (header : Bytes) : Prop where
  /-- A group header. -/
  length : header.length = 24
  /-- The signature stays. -/
  signature : header.take 4 = original.take 4
  /-- The size field has the new size. -/
  sized : leValue (header.slice 4 8) = size
  /-- Label, type and the fields after it stay. -/
  rest : header.drop 8 = original.drop 8

/-- The bytes of a tree whose records are replaced by FormID: every other record keeps its source
bytes, every group its source header with the size of its emitted children. -/
inductive Replaced (source : Bytes) (replacement : FormId → Option Bytes) :
    GroupChild → Bytes → Prop
  /-- A record with a replacement. -/
  | replaced {record : Record} {bytes : Bytes}
      (given : replacement record.header.formId = some bytes) :
      Replaced source replacement (.leaf record) bytes
  /-- A record without one. -/
  | kept {record : Record} {bytes : Bytes} (absent : replacement record.header.formId = none)
      (found : record.sourceBytes source = some bytes) :
      Replaced source replacement (.leaf record) bytes
  /-- A group. -/
  | group {info : GroupInfo} {children : List GroupChild} {range : Range}
      {original header : Bytes} {parts : List Bytes} (placed : info.sourceRange = some range)
      (found : source.get range.start (range.start + 24) = some original)
      (emitted : List.Forall₂ (Replaced source replacement) children parts)
      (resized : Resized original (24 + parts.flatten.length) header) :
      Replaced source replacement (.node info children) (header ++ parts.flatten)

/-- A registered order of some groups. -/
abbrev OrderOf : Type := GroupInfo → Option (List FormId)

/-- A group with a registered order stands in the tree. -/
def HasReordered (orderOf : OrderOf) (tree : GroupChild) : Prop :=
  ∃ group ∈ tree.nodes, (orderOf group.1).isSome

/-- The bytes of a tree after registered orders: a group without reordered groups is unchanged,
a reordered group has the source bytes of its records in the registered order, and a group
around reordered ones is emitted again from its children. -/
inductive Reordered (source : Bytes) (orderOf : OrderOf) : GroupChild → Bytes → Prop
  /-- A record. -/
  | record {record : Record} {bytes : Bytes} (found : record.sourceBytes source = some bytes) :
      Reordered source orderOf (.leaf record) bytes
  /-- A group that contains no reordered group and is none. -/
  | untouched {info : GroupInfo} {children : List GroupChild} {bytes : Bytes}
      (absent : ¬HasReordered orderOf (.node info children))
      (found : (Group.ofNode (info, children)).sourceBytes source = some bytes) :
      Reordered source orderOf (.node info children) bytes
  /-- A reordered group. -/
  | reordered {info : GroupInfo} {children : List GroupChild} {order : List FormId} {range : Range}
      {original header : Bytes} {parts : List Bytes} (registered : orderOf info = some order)
      (placed : info.sourceRange = some range)
      (found : source.get range.start (range.start + 24) = some original)
      (emitted : List.Forall₂ (fun formId part => ∃ record ∈ (Group.ofNode (info, children)).records,
        record.header.formId = formId ∧ record.sourceBytes source = some part) order parts)
      (resized : Resized original (24 + parts.flatten.length) header) :
      Reordered source orderOf (.node info children) (header ++ parts.flatten)
  /-- A group around reordered ones. -/
  | ancestor {info : GroupInfo} {children : List GroupChild} {range : Range}
      {original header : Bytes} {parts : List Bytes} (own : orderOf info = none)
      (below : ∃ child ∈ children, HasReordered orderOf child)
      (placed : info.sourceRange = some range)
      (found : source.get range.start (range.start + 24) = some original)
      (emitted : List.Forall₂ (Reordered source orderOf) children parts)
      (resized : Resized original (24 + parts.flatten.length) header) :
      Reordered source orderOf (.node info children) (header ++ parts.flatten)

/-- The FormIDs of the direct records of a group. -/
def directIds (group : GroupInfo × List GroupChild) : List FormId :=
  (Group.ofNode group).records.map (·.header.formId)

/-- Every order registered in the tree is the order that the group already has. -/
def OrdersKeep (orderOf : OrderOf) (tree : GroupChild) : Prop :=
  ∀ group ∈ tree.nodes, ∀ order, orderOf group.1 = some order → order = directIds group

/-- Where two children of a group both contain reordered groups, all orders registered in the
later one are those that its groups already have. -/
def FirstOnly (orderOf : OrderOf) (tree : GroupChild) : Prop :=
  ∀ group ∈ tree.nodes, group.2.Pairwise fun earlier later =>
    HasReordered orderOf earlier → OrdersKeep orderOf later

end Bethkit
