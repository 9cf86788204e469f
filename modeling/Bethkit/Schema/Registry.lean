import Bethkit.Schema.Model

/-!
# Packages and registries

A registry indexes the record schemas of one package by signature and finds a node by its path
through routes of child positions, collected once for every record schema.
-/

namespace Bethkit

open Lib

/-- Schema for one main-record signature. -/
structure SchemaRecord where
  /-- Main-record signature. -/
  signature : Signature
  /-- Human-readable record name. -/
  name : String
  /-- Ordered grammar root. -/
  root : SchemaNode

/-- A validated, owned schema package for one game mode. -/
structure SchemaPackage where
  /-- Game mode represented by this package. -/
  game : SchemaGame
  /-- Record schemas. -/
  records : List SchemaRecord
  /-- Executable callback bindings. -/
  callbackBindings : List CallbackBinding
  /-- Digest of the encoded payload. -/
  payloadSha256 : Fixed 32

/-- Routes of child positions by path. -/
structure NodeIndex where
  /-- The route of the first node with a path. -/
  routes : Std.TreeMap String (List Nat)

namespace NodeIndex

mutual

/-- Collect the routes of a tree; the first node with a path keeps it. -/
def collect : SchemaNode → List Nat → Std.TreeMap String (List Nat) →
    Std.TreeMap String (List Nat)
  | node@(.sequence _ children), route, routes | node@(.unordered _ children), route, routes
  | node@(.choice _ children), route, routes | node@(.selectedChoice _ _ children), route, routes
  | node@(.struct _ children), route, routes | node@(.optionalStruct _ children _), route, routes
  | node@(.union _ _ children), route, routes =>
    collectChildren children 0 route (routes.insertIfNew node.path route)
  | node@(.repeat _ _ _ child), route, routes | node@(.subrecord _ _ child), route, routes
  | node@(.array _ child _), route, routes | node@(.compressed _ _ child), route, routes
  | node@(.terminated _ _ child), route, routes =>
    collect child (route ++ [0]) (routes.insertIfNew node.path route)
  | node@(.primitive _ _), route, routes | node@(.custom _ _ _), route, routes
  | node@(.reference _ _), route, routes => routes.insertIfNew node.path route

/-- Collect the routes of the children from a position on. -/
def collectChildren : List SchemaNode → Nat → List Nat → Std.TreeMap String (List Nat) →
    Std.TreeMap String (List Nat)
  | [], _, _, routes => routes
  | child :: children, index, route, routes =>
    collectChildren children (index + 1) route (collect child (route ++ [index]) routes)

end

/-- The index of a tree. -/
def new (root : SchemaNode) : NodeIndex := ⟨collect root [] ∅⟩

/-- The node at the end of a route. -/
def follow : List Nat → SchemaNode → Option SchemaNode
  | [], node => some node
  | index :: route, node => do
    let child ← node.children[index]?
    follow route child

/-- The node with a path. -/
def get (nodeIndex : NodeIndex) (root : SchemaNode) (path : String) : Option SchemaNode := do
  let route ← nodeIndex.routes.get? path
  follow route root

end NodeIndex

/-- Record-signature index over one owned schema package. -/
structure SchemaRegistry where
  /-- The package. -/
  package : SchemaPackage

namespace SchemaRegistry

/-- The schema for a main-record signature; of two schemas with one signature the index holds the
later one. -/
def get (registry : SchemaRegistry) (signature : Signature) : Option SchemaRecord :=
  (registry.package.records.filter (·.signature = signature)).getLast?

/-- The node at an exact stable schema path for a main-record signature. -/
def getNode (registry : SchemaRegistry) (signature : Signature) (path : String) :
    Option SchemaNode := do
  let record ← registry.get signature
  (NodeIndex.new record.root).get record.root path

/-- Callbacks at an exact schema path in their original declaration order. -/
def callbacksAt (registry : SchemaRegistry) (path : String) : List CallbackBinding :=
  registry.package.callbackBindings.filter (·.path = path)

end SchemaRegistry

end Bethkit
