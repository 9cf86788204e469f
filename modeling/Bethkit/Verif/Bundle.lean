import Bethkit.Lib.Framing
import Bethkit.Lib.Outcome
import Bethkit.Lib.Pick
import Bethkit.Schema.Catalog

/-!
# Bundles that are loaded

An accepted bundle is its header and the frames of its packages and nothing else, so its entries tile
it and no part of it that ends earlier is a bundle. A bundle that is written is accepted, and holds
the packages that were written, if no encoded package is longer than the loader takes.
-/

namespace Bethkit

open Lib

section Slices

variable {bytes piece : Bytes} {start stop : Nat}

/-- A range that is found is inside the bytes. -/
theorem Bytes.get_eq_some :
    bytes.get start stop = some piece ↔
      start ≤ stop ∧ stop ≤ bytes.length ∧ bytes.slice start stop = piece := by
  rw [Bytes.get]
  split
  · rename_i inside
    simp [inside]
  · rename_i outside
    simp only [reduceCtorEq, false_iff]
    exact fun found => outside ⟨found.1, found.2.1⟩

/-- What stands from an offset on begins with the range up to another. -/
theorem Bytes.drop_eq_slice_append (forward : start ≤ stop) :
    bytes.drop start = bytes.slice start stop ++ bytes.drop stop := by
  have rest : bytes.drop stop = (bytes.drop start).drop (stop - start) := by
    rw [List.drop_drop]
    congr 1
    omega
  rw [Bytes.slice, rest, List.take_append_drop]

/-- The length of a range inside the bytes. -/
theorem Bytes.length_slice (inside : stop ≤ bytes.length) :
    (bytes.slice start stop).length = stop - start := by
  rw [Bytes.slice, List.length_take, List.length_drop]
  omega

end Slices

section Entries

variable {codec : PackageCodec} {limits : SchemaLoadLimits}

/-- An entry that is decoded as a package. -/
def LoadsAs (codec : PackageCodec) (limits : SchemaLoadLimits) (entry : Bytes)
    (package : OwnedPackage) : Prop :=
  OwnedPackage.fromBytesWithLimits codec entry limits = .ok package

/-- Decoded entries are frames that stand one behind the other. -/
theorem decodeEntries_sound {bytes : Bytes} {count offset stop : Nat}
    {packages : List OwnedPackage}
    (decoded : decodeEntries codec limits bytes count offset = .ok (packages, stop)) :
    ∃ entries : List Bytes, entries.length = count ∧
      bytes.drop offset = frames 8 entries ++ bytes.drop stop ∧
      stop = offset + (frames 8 entries).length ∧
      (∀ entry ∈ entries, Framable 8 entry) ∧ (∀ entry ∈ entries, stop ≤ bytes.length) ∧
      List.Forall₂ (LoadsAs codec limits) entries packages := by
  induction count generalizing offset packages with
  | zero =>
    have same := Except.ok.inj decoded
    obtain ⟨rfl, rfl⟩ := Prod.mk.inj same
    exact ⟨[], rfl, by simp, by simp, by simp, by simp, .nil⟩
  | succ count ih =>
    simp only [decodeEntries] at decoded
    split at decoded
    · cases decoded
    · split at decoded
      · cases decoded
      · rename_i lengthBytes lengthFound
        split at decoded
        · cases decoded
        · split at decoded
          · cases decoded
          · rename_i entry entryFound
            obtain ⟨package, loaded, decoded⟩ := bind_eq_ok.mp decoded
            obtain ⟨⟨others, last⟩, later, same⟩ := bind_eq_ok.mp decoded
            obtain ⟨rfl, rfl⟩ := Prod.mk.inj (Except.ok.inj same)
            obtain ⟨_, lengthInside, rfl⟩ := Bytes.get_eq_some.mp lengthFound
            obtain ⟨forward, entryInside, rfl⟩ := Bytes.get_eq_some.mp entryFound
            obtain ⟨entries, counted, split, ended, framable, inside, loads⟩ := ih later
            have prefixLength : (bytes.slice offset (offset + 8)).length = offset + 8 - offset :=
              Bytes.length_slice lengthInside
            have entryLength := @Bytes.length_slice _ (offset + 8) _ entryInside
            have small := leValue_lt (bytes.slice offset (offset + 8))
            rw [prefixLength, Nat.add_sub_cancel_left] at small
            rw [Nat.add_sub_cancel_left] at entryLength
            have framed : bytes.drop offset =
                frame 8 (bytes.slice (offset + 8)
                  (offset + 8 + leValue (bytes.slice offset (offset + 8)))) ++
                bytes.drop (offset + 8 + leValue (bytes.slice offset (offset + 8))) := by
              have written := leBytes_leValue (bytes.slice offset (offset + 8))
              rw [prefixLength, Nat.add_sub_cancel_left] at written
              rw [frame, entryLength, written, List.append_assoc,
                ← Bytes.drop_eq_slice_append forward,
                ← Bytes.drop_eq_slice_append (Nat.le_add_right _ _)]
            refine ⟨_ :: entries, by rw [List.length_cons, counted], ?_, ?_, ?_, ?_,
              .cons loaded loads⟩
            · rw [framed, split, frames_cons, List.append_assoc]
            · rw [ended, frames_cons, List.length_append, length_frame, entryLength]
              omega
            · rw [List.forall_mem_cons]
              exact ⟨by rw [Framable, entryLength]; exact small, framable⟩
            · intro _ _
              cases entries with
              | nil =>
                rw [ended]
                simpa using entryInside
              | cons next entries => exact inside next List.mem_cons_self

/-- Frames that stand one behind the other are decoded. -/
theorem decodeEntries_complete {bytes : Bytes} (fits : bytes.length < 2 ^ 64) {entries : List Bytes}
    {packages : List OwnedPackage} {offset : Nat} {rest : Bytes}
    (split : bytes.drop offset = frames 8 entries ++ rest) (inside : offset ≤ bytes.length)
    (loads : List.Forall₂ (LoadsAs codec limits) entries packages) :
    decodeEntries codec limits bytes entries.length offset =
      .ok (packages, offset + (frames 8 entries).length) := by
  induction loads generalizing offset with
  | nil => simp [decodeEntries]
  | @cons entry package entries packages loaded loads ih =>
    have total := congrArg List.length split
    simp only [frames_cons, List.length_drop, List.length_append, length_frame] at total
    have framed : entry.length < 256 ^ 8 := by omega
    have header : bytes.drop offset =
        leBytes 8 entry.length ++ (entry ++ (frames 8 entries ++ rest)) := by
      rw [split, frames_cons, frame, List.append_assoc, List.append_assoc]
    have before : bytes = bytes.take offset ++
        (leBytes 8 entry.length ++ (entry ++ (frames 8 entries ++ rest))) := by
      rw [← header, List.take_append_drop]
    have taken : (bytes.take offset).length = offset := by
      rw [List.length_take]
      omega
    have lengthFound : bytes.get offset (offset + 8) = some (leBytes 8 entry.length) := by
      have found := Bytes.get_append (bytes.take offset) (leBytes 8 entry.length)
        (entry ++ (frames 8 entries ++ rest))
      rwa [← before, taken, length_leBytes] at found
    have value : leValue (leBytes 8 entry.length) = entry.length := by
      rw [leValue_leBytes, Nat.mod_eq_of_lt framed]
    have entryFound : bytes.get (offset + 8) (offset + 8 + entry.length) = some entry := by
      have found := Bytes.get_append (bytes.take offset ++ leBytes 8 entry.length) entry
        (frames 8 entries ++ rest)
      rwa [List.append_assoc, ← before, List.length_append, taken, length_leBytes] at found
    have later : bytes.drop (offset + 8 + entry.length) = frames 8 entries ++ rest := by
      rw [← List.drop_drop, ← List.drop_drop, header, List.drop_left' (by simp), List.drop_left]
    have step := ih later (by omega)
    have loaded : OwnedPackage.fromBytesWithLimits codec entry limits = .ok package := loaded
    rw [List.length_cons, decodeEntries]
    simp only [lengthFound, value, entryFound, loaded, step, ok_bind]
    rw [if_neg (by omega), if_neg (by omega)]
    have ends : offset + 8 + entry.length + (frames 8 entries).length =
        offset + (frames 8 (entry :: entries)).length := by
      rw [frames_cons, List.length_append, length_frame]
      omega
    rw [ends]

end Entries

section Acceptance

variable {codec : PackageCodec} {limits : SchemaLoadLimits}

/-- An accepted bundle is its header and the frames of its packages. -/
theorem decodeBundle_sound {bytes : Bytes} {packages : List OwnedPackage}
    (accepted : decodeBundle codec bytes limits = .ok packages) :
    bundleHeaderLength ≤ bytes.length ∧
      ∃ entries : List Bytes, entries.length = leValue (bytes.slice 8 12) ∧
        bytes.drop bundleHeaderLength = frames 8 entries ∧
        (∀ entry ∈ entries, Framable 8 entry) ∧
        List.Forall₂ (LoadsAs codec limits) entries packages := by
  simp only [decodeBundle] at accepted
  split at accepted
  · cases accepted
  · rename_i header
    split at accepted
    · cases accepted
    · obtain ⟨⟨others, stop⟩, decoded, accepted⟩ := bind_eq_ok.mp accepted
      split at accepted
      · cases accepted
      · rename_i ended
        obtain rfl := Except.ok.inj accepted
        obtain ⟨entries, counted, split, _, framable, _, loads⟩ := decodeEntries_sound decoded
        have whole : stop = bytes.length := not_not.mp ended
        rw [whole, List.drop_length, List.append_nil] at split
        exact ⟨not_lt.mp (not_or.mp header).1, entries, counted, split, framable, loads⟩

/-- A header in front of frames is an accepted bundle. -/
theorem decodeBundle_complete {header : Bytes} {entries : List Bytes}
    {packages : List OwnedPackage} (sized : header.length = bundleHeaderLength)
    (magic : header.take 4 = bundleMagic)
    (version : UInt16.ofNat (leValue (Bytes.slice header 4 6)) = packageFormatVersion)
    (count : leValue (Bytes.slice header 8 12) = entries.length)
    (fits : (header ++ frames 8 entries).length < 2 ^ 64)
    (loads : List.Forall₂ (LoadsAs codec limits) entries packages) :
    decodeBundle codec (header ++ frames 8 entries) limits = .ok packages := by
  have front (start stop : Nat) (inside : stop ≤ bundleHeaderLength) :
      Bytes.slice (header ++ frames 8 entries) start stop = Bytes.slice header start stop := by
    by_cases forward : start ≤ stop
    · rw [Bytes.slice, Bytes.slice, List.drop_append_of_le_length (by omega),
        List.take_append_of_le_length (by rw [List.length_drop]; omega)]
    · have none : stop - start = 0 := by omega
      rw [Bytes.slice, Bytes.slice, none, List.take_zero, List.take_zero]
  have split : (header ++ frames 8 entries).drop bundleHeaderLength = frames 8 entries ++ [] := by
    rw [List.append_nil, ← sized, List.drop_left]
  have decoded := decodeEntries_complete fits split
    (by rw [List.length_append]; omega) loads
  have stop : bundleHeaderLength + (frames 8 entries).length =
      (header ++ frames 8 entries).length := by
    rw [List.length_append, sized]
  rw [stop] at decoded
  have long : ¬((header ++ frames 8 entries).length < bundleHeaderLength ∨
      (header ++ frames 8 entries).take 4 ≠ bundleMagic) := by
    rw [not_or, not_not, List.take_append_of_le_length (by rw [sized]; decide)]
    exact ⟨by rw [List.length_append]; omega, magic⟩
  rw [decodeBundle, if_neg long]
  simp only [front 4 6 (by decide), front 8 12 (by decide), version, count, ne_eq,
    not_true_eq_false, ↓reduceIte, decoded, ok_bind]

/-- No part of an accepted bundle that ends earlier is accepted. -/
theorem decodeBundle_take_ne_ok {bytes : Bytes} {packages others : List OwnedPackage}
    (accepted : decodeBundle codec bytes limits = .ok packages) {count : Nat}
    (shorter : count < bytes.length) :
    decodeBundle codec (bytes.take count) limits ≠ .ok others := by
  intro again
  obtain ⟨_, entries, counted, split, framable, _⟩ := decodeBundle_sound accepted
  obtain ⟨header, left, leftCounted, leftSplit, leftFramable, _⟩ := decodeBundle_sound again
  rw [List.length_take, Nat.min_eq_left (Nat.le_of_lt shorter)] at header
  have front : Bytes.slice (bytes.take count) 8 12 = bytes.slice 8 12 := by
    have enough : 12 ≤ count := header
    rw [Bytes.slice, Bytes.slice, List.drop_take, List.take_take, Nat.min_eq_left (by omega)]
  have same : frames 8 entries ++ [] = frames 8 left ++ bytes.drop count := by
    rw [List.append_nil, ← split, ← leftSplit]
    conv_lhs => rw [← List.take_append_drop count bytes]
    rw [List.drop_append_of_le_length (by
      rw [List.length_take, Nat.min_eq_left (Nat.le_of_lt shorter)]
      exact header)]
  have ended := (frames_append_inj framable leftFramable
    (by rw [counted, leftCounted, front]) same).2
  have length := congrArg List.length ended
  simp only [List.length_nil, List.length_drop] at length
  omega

end Acceptance

section Encoding

variable {codec : PackageCodec} {limits : SchemaLoadLimits}

/-- Decoding CBOR inverts encoding it. -/
def PackageCodec.Inverts (codec : PackageCodec) : Prop :=
  ∀ payload encoded, codec.toCbor payload = .ok encoded → codec.fromCbor encoded = .ok payload

/-- The package was created and validated. -/
def OwnedPackage.Created (codec : PackageCodec) (package : OwnedPackage) : Prop :=
  ∃ manifest records callbackBindings conditionFunctionTable,
    OwnedPackage.newWithSemantics codec manifest records callbackBindings
      conditionFunctionTable = .ok package

/-- A created package is valid and carries the digest of its payload. -/
theorem OwnedPackage.created_iff {package : OwnedPackage} :
    package.Created codec ↔
      SchemaPackage.validate package.payload .default = .ok () ∧
        ∃ encoded, codec.toCbor package.payload = .ok encoded ∧
          codec.sha256 encoded = package.payloadSha256 := by
  constructor
  · rintro ⟨manifest, records, callbackBindings, table, created⟩
    obtain ⟨⟨⟩, valid, created⟩ := bind_eq_ok.mp created
    obtain ⟨encoded, encoding, same⟩ := bind_eq_ok.mp created
    obtain rfl := Except.ok.inj same
    exact ⟨mapError_eq_ok.mp valid, encoded, mapError_eq_ok.mp encoding, rfl⟩
  · rintro ⟨valid, encoded, encoding, digest⟩
    obtain ⟨⟨manifest, records, callbackBindings, table⟩, sum⟩ := package
    refine ⟨manifest, records, callbackBindings, table, ?_⟩
    simp only at valid encoding digest
    simp only [OwnedPackage.newWithSemantics, OwnedPackage.encodePayload, valid, encoding, digest,
      Except.mapError, ok_bind]

/-- The header of an encoded package. -/
def packageHeader (codec : PackageCodec) (payload : Bytes) : Bytes :=
  packageMagic ++ (u16ToLeBytes packageFormatVersion ++ (u16ToLeBytes 0 ++
    (leBytes 8 payload.length ++ (codec.sha256 payload).val)))

/-- The length of the header. -/
theorem length_packageHeader (payload : Bytes) :
    (packageHeader codec payload).length = packageHeaderLength := by
  have digest := (codec.sha256 payload).property
  simp only [packageHeader, List.length_append, length_u16ToLeBytes, length_leBytes, digest]
  rfl

/-- A package is encoded as its header and its payload. -/
theorem OwnedPackage.toBytes_eq_ok {package : OwnedPackage} {bytes : Bytes} :
    package.toBytes codec = .ok bytes ↔
      SchemaPackage.validate package.payload .default = .ok () ∧
        ∃ payload, codec.toCbor package.payload = .ok payload ∧ payload.length < 2 ^ 64 ∧
          packageHeader codec payload ++ payload = bytes := by
  constructor
  · intro encoded
    obtain ⟨⟨⟩, valid, encoded⟩ := bind_eq_ok.mp encoded
    obtain ⟨payload, encoding, encoded⟩ := bind_eq_ok.mp encoded
    split at encoded
    · cases encoded
    · rename_i fits
      refine ⟨mapError_eq_ok.mp valid, payload, mapError_eq_ok.mp encoding, not_le.mp fits, ?_⟩
      have same := Except.ok.inj encoded
      simpa only [packageHeader, List.append_assoc] using same
  · rintro ⟨valid, payload, encoding, fits, rfl⟩
    simp only [OwnedPackage.toBytes, OwnedPackage.encodePayload, valid, encoding, Except.mapError,
      ok_bind, if_neg (not_le.mpr fits), packageHeader, List.append_assoc]

/-- What a header of a package says about it. -/
theorem packageHeader_slices {payload : Bytes} (fits : payload.length < 2 ^ 64) :
    (packageHeader codec payload ++ payload).take 4 = packageMagic ∧
      UInt16.ofNat (leValue (Bytes.slice (packageHeader codec payload ++ payload) 4 6)) =
        packageFormatVersion ∧
      leValue (Bytes.slice (packageHeader codec payload ++ payload) 8 16) = payload.length ∧
      Bytes.slice (packageHeader codec payload ++ payload) 16 48 = (codec.sha256 payload).val ∧
      (packageHeader codec payload ++ payload).drop packageHeaderLength = payload := by
  have digest := (codec.sha256 payload).property
  have version : (u16ToLeBytes packageFormatVersion).length = 2 := length_u16ToLeBytes _
  have reserved : (u16ToLeBytes 0).length = 2 := length_u16ToLeBytes _
  refine ⟨by simp [packageHeader, packageMagic], ?_, ?_, ?_, ?_⟩
  · have found := Bytes.slice_append packageMagic (u16ToLeBytes packageFormatVersion)
      (u16ToLeBytes 0 ++ (leBytes 8 payload.length ++ ((codec.sha256 payload).val ++ payload)))
    rw [version] at found
    simp only [packageHeader, List.append_assoc]
    have slice : Bytes.slice (packageMagic ++ (u16ToLeBytes packageFormatVersion ++
        (u16ToLeBytes 0 ++ (leBytes 8 payload.length ++
          ((codec.sha256 payload).val ++ payload))))) 4 6 = u16ToLeBytes packageFormatVersion := found
    rw [slice]
    exact u16FromLeBytes_toLeBytes _
  · have found := Bytes.slice_append
      (packageMagic ++ (u16ToLeBytes packageFormatVersion ++ u16ToLeBytes 0))
      (leBytes 8 payload.length) ((codec.sha256 payload).val ++ payload)
    simp only [List.length_append, version, reserved, length_leBytes, List.append_assoc] at found
    simp only [packageHeader, List.append_assoc]
    have slice : Bytes.slice (packageMagic ++ (u16ToLeBytes packageFormatVersion ++
        (u16ToLeBytes 0 ++ (leBytes 8 payload.length ++
          ((codec.sha256 payload).val ++ payload))))) 8 16 = leBytes 8 payload.length := found
    rw [slice, leValue_leBytes, Nat.mod_eq_of_lt (by omega)]
  · have found := Bytes.slice_append
      (packageMagic ++ (u16ToLeBytes packageFormatVersion ++ (u16ToLeBytes 0 ++
        leBytes 8 payload.length))) (codec.sha256 payload).val payload
    simp only [List.length_append, version, reserved, length_leBytes, digest,
      List.append_assoc] at found
    simp only [packageHeader, List.append_assoc]
    exact found
  · exact List.drop_left' (length_packageHeader payload)

/-- An encoded package that is not too long is the package that was encoded. -/
theorem OwnedPackage.loadsAs_of_toBytes (inverts : codec.Inverts) {package : OwnedPackage}
    (created : package.Created codec) {bytes : Bytes} (encoded : package.toBytes codec = .ok bytes)
    (fits : bytes.length < 2 ^ 64) (short : bytes.length ≤ SchemaLoadLimits.default.maximumPackageBytes) :
    LoadsAs codec .default bytes package := by
  obtain ⟨valid, payload, encoding, small, rfl⟩ := toBytes_eq_ok.mp encoded
  obtain ⟨_, again, sameEncoding, digest⟩ := created_iff.mp created
  obtain rfl : payload = again := Except.ok.inj (encoding.symm.trans sameEncoding)
  obtain ⟨magic, version, length, sum, rest⟩ := @packageHeader_slices codec _ small
  have total : packageHeaderLength + payload.length =
      (packageHeader codec payload ++ payload).length := by
    rw [List.length_append, length_packageHeader]
  have decoded := inverts _ _ encoding
  rw [LoadsAs, fromBytesWithLimits, if_neg (not_lt.mpr short),
    if_neg (by rw [magic]; simp only [ne_eq, not_true_eq_false, or_false]; omega)]
  simp only [version, length, rest, sum, decoded, valid, ne_eq, not_true_eq_false, ↓reduceIte,
    total, if_neg (not_le.mpr fits), ok_bind, digest]

/-- What registries read of a loaded package is what loading it for them gives. -/
theorem LoadsAs.toSchemaPackage {entry : Bytes} {package : OwnedPackage}
    (loads : LoadsAs codec limits entry package) :
    SchemaPackage.fromBytesWithLimits codec.sha256 codec.fromCbor entry limits =
      .ok package.toSchemaPackage := by
  simp only [LoadsAs, OwnedPackage.fromBytesWithLimits] at loads
  simp only [SchemaPackage.fromBytesWithLimits]
  split_ifs at loads with long magic version overflow length digest
  all_goals try cases loads
  rw [if_neg long, if_neg magic, if_neg version, if_neg length, if_neg digest]
  cases decoded : codec.fromCbor (entry.drop packageHeaderLength) with
  | error message =>
    rw [decoded] at loads
    cases loads
  | ok payload =>
    simp only [decoded] at loads
    obtain ⟨⟨⟩, valid, same⟩ := bind_eq_ok.mp loads
    obtain rfl := Except.ok.inj same
    simp only [valid, ok_bind]
    rfl

/-- An entry that is too long is not loaded. -/
theorem LoadsAs.length_le {entry : Bytes} {package : OwnedPackage}
    (loads : LoadsAs codec limits entry package) : entry.length ≤ limits.maximumPackageBytes := by
  by_contra long
  rw [LoadsAs, OwnedPackage.fromBytesWithLimits, if_pos (not_le.mp long)] at loads
  cases loads

end Encoding

section Bundles

variable {codec : PackageCodec}

/-- Packages of pairwise different games are encoded one by one. -/
theorem encodePackages_eq_ok {packages : List OwnedPackage} {games : List SchemaGame}
    {encoded : List Bytes} (encoding : encodePackages codec packages games = .ok encoded) :
    List.Forall₂ (fun package bytes => package.toBytes codec = .ok bytes) packages encoded ∧
      (packages.map (·.game)).Nodup ∧ ∀ package ∈ packages, package.game ∉ games := by
  induction packages generalizing games encoded with
  | nil =>
    obtain rfl := Except.ok.inj encoding
    exact ⟨.nil, List.nodup_nil, by simp⟩
  | cons package packages ih =>
    rw [encodePackages] at encoding
    split at encoding
    · cases encoding
    · rename_i fresh
      obtain ⟨bytes, first, encoding⟩ := bind_eq_ok.mp encoding
      obtain ⟨others, later, same⟩ := bind_eq_ok.mp encoding
      obtain rfl := Except.ok.inj same
      obtain ⟨rest, distinct, unused⟩ := ih later
      have absent : package.game ∉ packages.map (·.game) := by
        intro again
        obtain ⟨other, found, sameGame⟩ := List.mem_map.mp again
        exact unused other found (sameGame ▸ List.mem_cons_self)
      refine ⟨.cons first rest, List.nodup_cons.mpr ⟨absent, distinct⟩, ?_⟩
      rw [List.forall_mem_cons]
      exact ⟨by simpa using fresh,
        fun other found used => unused other found (List.mem_cons_of_mem _ used)⟩

/-- The entries of a bundle are the frames of the encoded packages. -/
theorem bundleEntries_eq_ok {packages : List Bytes} {entries : Bytes}
    (framed : bundleEntries packages = .ok entries) :
    entries = frames 8 packages ∧ ∀ package ∈ packages, Framable 8 package := by
  induction packages generalizing entries with
  | nil => exact ⟨(Except.ok.inj framed).symm, by simp⟩
  | cons package packages ih =>
    rw [bundleEntries] at framed
    split at framed
    · cases framed
    · rename_i fits
      obtain ⟨others, later, same⟩ := bind_eq_ok.mp framed
      obtain rfl := Except.ok.inj same
      obtain ⟨rfl, framable⟩ := ih later
      refine ⟨rfl, List.forall_mem_cons.mpr ⟨?_, framable⟩⟩
      rw [Framable]
      omega

/-- The header of a bundle. -/
def bundleHeader (count : Nat) : Bytes :=
  bundleMagic ++ u16ToLeBytes packageFormatVersion ++ u16ToLeBytes 0 ++ leBytes 4 count

/-- A bundle is its header and the frames of the packages in game order. -/
theorem encodeBundle_eq_ok {packages : List OwnedPackage} {bytes : Bytes}
    (encoding : encodeBundle codec packages = .ok bytes) :
    ∃ encoded : List Bytes,
      List.Forall₂ (fun package entry => package.toBytes codec = .ok entry)
        (packages.insertionSort fun first second => first.game.rank ≤ second.game.rank) encoded ∧
      (packages.map (·.game)).Nodup ∧ (∀ entry ∈ encoded, Framable 8 entry) ∧
      encoded.length < 2 ^ 32 ∧ bytes = bundleHeader encoded.length ++ frames 8 encoded := by
  obtain ⟨encoded, each, encoding⟩ := bind_eq_ok.mp encoding
  obtain ⟨all, distinct, _⟩ := encodePackages_eq_ok each
  split at encoding
  · cases encoding
  · rename_i few
    obtain ⟨entries, framed, same⟩ := bind_eq_ok.mp encoding
    obtain ⟨rfl, framable⟩ := bundleEntries_eq_ok framed
    have sorted := (List.perm_insertionSort
      (fun first second : OwnedPackage => first.game.rank ≤ second.game.rank) packages).map
        (·.game)
    exact ⟨encoded, all, sorted.nodup_iff.mp distinct, framable, not_le.mp few,
      (Except.ok.inj same).symm⟩

/-- Packages of pairwise different games are few. -/
theorem length_le_of_games {packages : List OwnedPackage}
    (distinct : (packages.map (·.game)).Nodup) : packages.length ≤ 11 := by
  have ranks : (packages.map (·.game.rank)).Nodup := by
    have mapped := distinct.map SchemaGame.rank_injective
    rwa [List.map_map] at mapped
  have within : packages.map (·.game.rank) ⊆ List.range 11 := by
    intro rank found
    obtain ⟨package, _, rfl⟩ := List.mem_map.mp found
    rw [List.mem_range]
    cases package.game <;> decide
  have count := (ranks.subperm within).length_le
  rwa [List.length_map, List.length_range] at count

/-- A package is found by its game among packages of pairwise different games. -/
theorem find?_game_perm {packages others : List OwnedPackage} (same : packages.Perm others)
    (distinct : (packages.map (·.game)).Nodup) (game : SchemaGame) :
    packages.find? (·.game = game) = others.find? (·.game = game) := by
  have found {list : List OwnedPackage} {package : OwnedPackage} (member : package ∈ list)
      (unique : (list.map (·.game)).Nodup) :
      list.find? (·.game = package.game) = some package := by
    induction list with
    | nil => cases member
    | cons first list ih =>
      rw [List.map_cons, List.nodup_cons] at unique
      rcases List.mem_cons.mp member with rfl | later
      · simp
      · have different : first.game ≠ package.game := fun equal =>
          unique.1 (List.mem_map.mpr ⟨package, later, equal.symm⟩)
        rw [List.find?_cons_of_neg (by simpa using different)]
        exact ih later unique.2
  cases first : packages.find? (·.game = game) with
  | none =>
    have absent := List.find?_eq_none.mp first
    symm
    rw [List.find?_eq_none]
    exact fun package member => absent package (same.mem_iff.mpr member)
  | some package =>
    have member := List.mem_of_find?_eq_some first
    have right : package.game = game := by simpa using List.find?_some first
    rw [← right]
    exact (found (same.mem_iff.mp member) ((same.map _).nodup_iff.mp distinct)).symm

/-- Inserting packages of new and pairwise different games adds exactly these. -/
theorem foldlM_insert {packages : List OwnedPackage} {catalog : SchemaCatalog}
    (distinct : (packages.map (·.game)).Nodup)
    (fresh : ∀ package ∈ packages, catalog.get package.game = none) :
    ∃ result, packages.foldlM SchemaCatalog.insert catalog = .ok result ∧
      (∀ game, result.get game = (packages.find? (·.game = game)).or (catalog.get game)) ∧
      result.len = catalog.len + packages.length := by
  induction packages generalizing catalog with
  | nil => exact ⟨catalog, rfl, by simp, rfl⟩
  | cons package packages ih =>
    rw [List.map_cons, List.nodup_cons] at distinct
    rw [List.forall_mem_cons] at fresh
    have absent : catalog.packages.contains package.game = false := by
      have none := fresh.1
      rw [SchemaCatalog.get] at none
      rw [← Bool.not_eq_true, Std.TreeMap.contains_iff_mem]
      simpa using none
    have step : catalog.insert package =
        .ok ⟨catalog.packages.insert package.game package⟩ := by
      rw [SchemaCatalog.insert, absent]
      rfl
    have read (game : SchemaGame) :
        SchemaCatalog.get ⟨catalog.packages.insert package.game package⟩ game =
          if package.game = game then some package else catalog.get game := by
      rw [SchemaCatalog.get, SchemaCatalog.get, Std.TreeMap.getElem?_insert]
      simp only [Std.LawfulEqOrd.compare_eq_iff_eq]
    have unused : ∀ other ∈ packages,
        SchemaCatalog.get ⟨catalog.packages.insert package.game package⟩ other.game = none := by
      intro other member
      have different : package.game ≠ other.game := fun equal =>
        distinct.1 (List.mem_map.mpr ⟨other, member, equal.symm⟩)
      rw [read, if_neg different]
      exact fresh.2 other member
    obtain ⟨result, later, found, sized⟩ := ih distinct.2 unused
    refine ⟨result, ?_, ?_, ?_⟩
    · rw [List.foldlM_cons, step, ok_bind]
      exact later
    · intro game
      rw [found, read, List.find?_cons]
      by_cases same : package.game = game
      · have none : packages.find? (·.game = game) = none := by
          rw [List.find?_eq_none]
          intro other member equal
          exact distinct.1 (List.mem_map.mpr ⟨other, member, by simpa [same] using equal⟩)
        simp [same, none]
      · simp [same]
    · have count : SchemaCatalog.len ⟨catalog.packages.insert package.game package⟩ =
          catalog.len + 1 := by
        rw [SchemaCatalog.len, SchemaCatalog.len, Std.TreeMap.size_insert]
        simp [absent]
      rw [sized, count, List.length_cons]
      omega

end Bundles

section Loading

variable {codec : PackageCodec}

/-- The catalog holds exactly some packages. -/
def SchemaCatalog.Holds (catalog : SchemaCatalog) (packages : List OwnedPackage) : Prop :=
  (∀ game, catalog.get game = packages.find? (·.game = game)) ∧ catalog.len = packages.length

/-- Packages of pairwise different games make a catalog of exactly these. -/
theorem foldlM_insert_new {packages : List OwnedPackage}
    (distinct : (packages.map (·.game)).Nodup) :
    ∃ catalog, packages.foldlM SchemaCatalog.insert .new = .ok catalog ∧
      catalog.Holds packages := by
  have empty (game : SchemaGame) : SchemaCatalog.get .new game = none := by
    simp [SchemaCatalog.get, SchemaCatalog.new]
  obtain ⟨catalog, inserted, found, sized⟩ :=
    foldlM_insert distinct fun package _ => empty package.game
  refine ⟨catalog, inserted, fun game => ?_, ?_⟩
  · rw [found, empty, Option.or_none]
  · have none : SchemaCatalog.len .new = 0 := by simp [SchemaCatalog.len, SchemaCatalog.new]
    rw [sized, none, Nat.zero_add]

/-- The slices of the header of a bundle. -/
theorem bundleHeader_slices {count : Nat} (few : count < 2 ^ 32) :
    (bundleHeader count).length = bundleHeaderLength ∧
      (bundleHeader count).take 4 = bundleMagic ∧
      UInt16.ofNat (leValue (Bytes.slice (bundleHeader count) 4 6)) = packageFormatVersion ∧
      leValue (Bytes.slice (bundleHeader count) 8 12) = count := by
  have version : (u16ToLeBytes packageFormatVersion).length = 2 := length_u16ToLeBytes _
  have reserved : (u16ToLeBytes 0).length = 2 := length_u16ToLeBytes _
  refine ⟨?_, by simp [bundleHeader, bundleMagic], ?_, ?_⟩
  · simp only [bundleHeader, List.length_append, version, reserved, length_leBytes]
    rfl
  · have slice : Bytes.slice (bundleHeader count) 4 6 = u16ToLeBytes packageFormatVersion := by
      have found := Bytes.slice_append bundleMagic (u16ToLeBytes packageFormatVersion)
        (u16ToLeBytes 0 ++ leBytes 4 count)
      rw [version] at found
      simp only [bundleHeader, List.append_assoc]
      exact found
    rw [slice]
    exact u16FromLeBytes_toLeBytes _
  · have slice : Bytes.slice (bundleHeader count) 8 12 = leBytes 4 count := by
      have found := Bytes.slice_append
        (bundleMagic ++ (u16ToLeBytes packageFormatVersion ++ u16ToLeBytes 0)) (leBytes 4 count) []
      simp only [List.length_append, version, reserved, length_leBytes, List.append_assoc,
        List.append_nil] at found
      simp only [bundleHeader, List.append_assoc]
      exact found
    rw [slice, leValue_leBytes, Nat.mod_eq_of_lt (by omega)]

/-- The encoded packages of a bundle are short enough for the loader. -/
def ShortPackages (codec : PackageCodec) (packages : List OwnedPackage) : Prop :=
  ∀ package ∈ packages, ∀ payload, codec.toCbor package.payload = .ok payload →
    packageHeaderLength + payload.length ≤ SchemaLoadLimits.default.maximumPackageBytes

/-- The packages in game order. -/
def gameOrder (packages : List OwnedPackage) : List OwnedPackage :=
  packages.insertionSort fun first second => first.game.rank ≤ second.game.rank

/-- Packages in game order are the same packages. -/
theorem gameOrder_perm (packages : List OwnedPackage) : (gameOrder packages).Perm packages :=
  List.perm_insertionSort _ packages

/-- A written bundle of short packages is decoded to them, in game order. -/
theorem decodeBundle_encodeBundle (inverts : codec.Inverts) {packages : List OwnedPackage}
    (created : ∀ package ∈ packages, package.Created codec) {bytes : Bytes}
    (encoding : encodeBundle codec packages = .ok bytes) (short : ShortPackages codec packages) :
    decodeBundle codec bytes .default = .ok (gameOrder packages) := by
  obtain ⟨encoded, each, distinct, _, few, rfl⟩ := encodeBundle_eq_ok encoding
  have sizes : ∀ entry ∈ encoded, entry.length ≤ SchemaLoadLimits.default.maximumPackageBytes := by
    intro entry member
    obtain ⟨package, found, written⟩ := exists_of_mem_right each member
    have known := (gameOrder_perm packages).mem_iff.mp found
    obtain ⟨_, payload, encodes, _, rfl⟩ := OwnedPackage.toBytes_eq_ok.mp written
    rw [List.length_append, length_packageHeader]
    exact short package known payload encodes
  have loads : List.Forall₂ (LoadsAs codec .default) encoded (gameOrder packages) := by
    refine (forall₂_imp_mem each fun package member entry found written => ?_).flip
    have entryShort := sizes entry found
    have limit : SchemaLoadLimits.default.maximumPackageBytes < 2 ^ 64 := by decide
    exact OwnedPackage.loadsAs_of_toBytes inverts
      (created package ((gameOrder_perm packages).mem_iff.mp member)) written (by omega) entryShort
  have count : encoded.length ≤ 11 := by
    have games := length_le_of_games distinct
    rwa [← (gameOrder_perm packages).length_eq, ← loads.length_eq] at games
  obtain ⟨sized, magic, version, counted⟩ := bundleHeader_slices few
  refine decodeBundle_complete sized magic version counted ?_ loads
  have total : (frames 8 encoded).length ≤ _ := length_frames_le sizes
  have bound : encoded.length * (8 + SchemaLoadLimits.default.maximumPackageBytes) ≤
      11 * (8 + SchemaLoadLimits.default.maximumPackageBytes) := Nat.mul_le_mul_right _ count
  have small : 12 + 11 * (8 + SchemaLoadLimits.default.maximumPackageBytes) < 2 ^ 64 := by decide
  have header : (bundleHeader encoded.length).length = 12 := sized
  rw [List.length_append, header]
  omega

/-- The packages of a written bundle that is decoded are short. -/
theorem shortPackages_of_decodeBundle {packages others : List OwnedPackage} {bytes : Bytes}
    (encoding : encodeBundle codec packages = .ok bytes)
    (decoded : decodeBundle codec bytes .default = .ok others) : ShortPackages codec packages := by
  obtain ⟨encoded, each, _, framable, few, rfl⟩ := encodeBundle_eq_ok encoding
  obtain ⟨_, entries, counted, split, framed, loads⟩ := decodeBundle_sound decoded
  obtain ⟨sized, _, _, count⟩ := bundleHeader_slices few
  have same : encoded = entries := by
    have front : Bytes.slice (bundleHeader encoded.length ++ frames 8 encoded) 8 12 =
        Bytes.slice (bundleHeader encoded.length) 8 12 := by
      have header : (bundleHeader encoded.length).length = 12 := sized
      rw [Bytes.slice, Bytes.slice, List.drop_append_of_le_length (by omega),
        List.take_append_of_le_length (by rw [List.length_drop]; omega)]
    rw [front, count] at counted
    rw [← sized, List.drop_left] at split
    have both : frames 8 encoded ++ [] = frames 8 entries ++ [] := by rw [split]
    exact (frames_append_inj framable framed counted.symm both).1
  intro package member payload encodes
  have sorted := (gameOrder_perm packages).mem_iff.mpr member
  obtain ⟨entry, found, written⟩ := exists_of_mem_right each.flip sorted
  obtain ⟨_, again, encodesAgain, _, rfl⟩ := OwnedPackage.toBytes_eq_ok.mp written
  obtain rfl := Except.ok.inj (encodes.symm.trans encodesAgain)
  obtain ⟨_, _, loaded⟩ := exists_of_mem_right loads.flip (same ▸ found)
  have short := LoadsAs.length_le loaded
  rwa [List.length_append, length_packageHeader] at short

/-- An accepted bundle is tiled by its entries, and no part of it that ends earlier is accepted. -/
theorem decodeBundle_tiled {limits : SchemaLoadLimits} {bytes : Bytes}
    {packages : List OwnedPackage} (accepted : decodeBundle codec bytes limits = .ok packages) :
    (∃ entries : List Bytes, bytes.drop bundleHeaderLength = frames 8 entries ∧
      List.Forall₂ (LoadsAs codec limits) entries packages ∧
      Tiles bundleHeaderLength bytes.length (frameRanges 8 bundleHeaderLength entries)) ∧
      ∀ count < bytes.length, ∀ others, decodeBundle codec (bytes.take count) limits ≠ .ok others := by
  obtain ⟨header, entries, _, split, _, loads⟩ := decodeBundle_sound accepted
  have tiles := frameRanges_tiles 8 bundleHeaderLength entries
  rw [← split, List.length_drop, Nat.add_sub_cancel' header] at tiles
  exact ⟨⟨entries, split, loads, tiles⟩,
    fun _ shorter _ => decodeBundle_take_ne_ok accepted shorter⟩

/-- Accepted bundles are tiled and have no accepted part, and a written bundle is loaded as a catalog
of exactly the written packages if and only if these are short enough for the loader. -/
theorem encodeBundle_loads_iff (inverts : codec.Inverts) {packages : List OwnedPackage}
    (created : ∀ package ∈ packages, package.Created codec) {bytes : Bytes}
    (encoding : encodeBundle codec packages = .ok bytes) :
    (∀ limits accepted others, decodeBundle codec accepted limits = .ok others →
      (∃ entries : List Bytes, accepted.drop bundleHeaderLength = frames 8 entries ∧
        List.Forall₂ (LoadsAs codec limits) entries others ∧
        Tiles bundleHeaderLength accepted.length (frameRanges 8 bundleHeaderLength entries)) ∧
      ∀ count < accepted.length, ∀ more,
        decodeBundle codec (accepted.take count) limits ≠ .ok more) ∧
    ((decodeBundle codec bytes .default = .ok (gameOrder packages) ∧
      ∃ catalog, SchemaCatalog.fromBundleBytes codec bytes = .ok catalog ∧ catalog.Holds packages) ↔
      ShortPackages codec packages) := by
  refine ⟨fun _ _ _ => decodeBundle_tiled, ?_⟩
  constructor
  · rintro ⟨decoded, _⟩
    exact shortPackages_of_decodeBundle encoding decoded
  · intro short
    have decoded := decodeBundle_encodeBundle inverts created encoding short
    obtain ⟨_, _, distinct, _⟩ := encodeBundle_eq_ok encoding
    have moved := gameOrder_perm packages
    have sorted : ((gameOrder packages).map (·.game)).Nodup :=
      (moved.map _).nodup_iff.mpr distinct
    obtain ⟨catalog, inserted, found, sized⟩ := foldlM_insert_new sorted
    refine ⟨decoded, catalog, ?_, fun game => ?_, ?_⟩
    · rw [SchemaCatalog.fromBundleBytes, decoded]
      exact inserted
    · rw [found, find?_game_perm moved sorted]
    · rw [sized, moved.length_eq]

/-- A manifest that requires decoders and nothing else. -/
def decoderManifest (decoders : List DecoderRequirement) : SchemaManifest where
  formatVersion := packageFormatVersion
  game := .skyrimSe
  validationStatus := .candidate
  byteCoverage := 0
  callbacksTotal := 0
  callbacksClassified := 0
  requiredDecoders := decoders
  requiredHandlers := []

/-- A payload that requires decoders and nothing else. -/
def decoderPayload (decoders : List DecoderRequirement) : PackagePayload :=
  ⟨decoderManifest decoders, [], [], none⟩

/-- A payload that requires valid decoders is valid. -/
theorem validate_decoderPayload {decoders : List DecoderRequirement}
    (valid : SchemaPackage.validateRequiredDecoders .default decoders = .ok ()) :
    SchemaPackage.validate (decoderPayload decoders) .default = .ok () := by
  simp [SchemaPackage.validate, decoderPayload, decoderManifest, valid, Except.mapError,
    validateConditionFunctionTable, SchemaPackage.validateRecords,
    SchemaPackage.validateRequiredHandlers, validateCallbackBindings, validateAllSelectorBindings]

/-- The bundle of one package. -/
theorem encodeBundle_singleton {package : OwnedPackage} {payload : Bytes}
    (valid : SchemaPackage.validate package.payload .default = .ok ())
    (encodes : codec.toCbor package.payload = .ok payload) (fits : payload.length < 2 ^ 63) :
    encodeBundle codec [package] =
      .ok (bundleHeader 1 ++ frames 8 [packageHeader codec payload ++ payload]) := by
  have written : package.toBytes codec = .ok (packageHeader codec payload ++ payload) :=
    OwnedPackage.toBytes_eq_ok.mpr ⟨valid, payload, encodes, by omega, rfl⟩
  have sized : (packageHeader codec payload ++ payload).length = 48 + payload.length := by
    rw [List.length_append, length_packageHeader]
    rfl
  have short : ¬2 ^ 64 ≤ (packageHeader codec payload ++ payload).length := by omega
  have framed : bundleEntries [packageHeader codec payload ++ payload] =
      .ok (frames 8 [packageHeader codec payload ++ payload]) := by
    rw [bundleEntries, if_neg short]
    rfl
  have each : encodePackages codec [package] [] = .ok [packageHeader codec payload ++ payload] := by
    simp [encodePackages, written]
  simp [encodeBundle, List.insertionSort, each, framed, bundleHeader]

/-- There is a codec for one payload. -/
theorem exists_codec (payload : PackagePayload) (encoded : Bytes) :
    ∃ codec : PackageCodec, codec.Inverts ∧ codec.toCbor payload = .ok encoded ∧
      ∀ other bytes, codec.toCbor other = .ok bytes → other = payload ∧ bytes = encoded := by
  classical
  have known {other : PackagePayload} {bytes : Bytes}
      (encodes : (if other = payload then .ok encoded else .error "other" : Except String Bytes) =
        .ok bytes) : other = payload ∧ bytes = encoded := by
    split at encodes
    · rename_i same
      exact ⟨same, (Except.ok.inj encodes).symm⟩
    · cases encodes
  refine ⟨{
    sha256 := fun _ => ⟨List.replicate 32 0, rfl⟩
    toCbor := fun other => if other = payload then .ok encoded else .error "other"
    fromCbor := fun bytes => if bytes = encoded then .ok payload else .error "other" },
    ?_, if_pos rfl, fun _ _ => known⟩
  intro other bytes encodes
  obtain ⟨rfl, rfl⟩ := known encodes
  exact if_pos rfl

/-- A package without requirements is written and loaded. -/
theorem encodeBundle_loads_empty :
    ∃ (codec : PackageCodec) (bytes : Bytes),
      encodeBundle codec [⟨decoderPayload [], codec.sha256 [0xA0]⟩] = .ok bytes ∧
      ∃ catalog, SchemaCatalog.fromBundleBytes codec bytes = .ok catalog ∧
        catalog.Holds [⟨decoderPayload [], codec.sha256 [0xA0]⟩] := by
  obtain ⟨codec, inverts, encodes, _⟩ := exists_codec (decoderPayload []) [0xA0]
  have valid := @validate_decoderPayload [] rfl
  have encoding := @encodeBundle_singleton codec ⟨decoderPayload [], codec.sha256 [0xA0]⟩ _
    valid encodes (by decide)
  have created : ∀ package ∈ [(⟨decoderPayload [], codec.sha256 [0xA0]⟩ : OwnedPackage)],
      package.Created codec := by
    intro package member
    rw [List.mem_singleton.mp member]
    exact OwnedPackage.created_iff.mpr ⟨valid, [0xA0], encodes, rfl⟩
  have short : ShortPackages codec [⟨decoderPayload [], codec.sha256 [0xA0]⟩] := by
    intro package member payload found
    rw [List.mem_singleton.mp member] at found
    obtain rfl := Except.ok.inj (encodes.symm.trans found)
    decide
  exact ⟨codec, _, encoding, ((encodeBundle_loads_iff inverts created encoding).2.mpr short).2⟩

/-- A text of letters takes a byte for each. -/
theorem utf8ByteSize_letters (count : Nat) :
    (String.ofList (List.replicate count 'a')).utf8ByteSize = count := by
  induction count with
  | zero => rfl
  | succ count ih =>
    have letter : (String.ofList ['a']).utf8ByteSize = 1 := by decide
    rw [List.replicate_succ', String.ofList_append, String.utf8ByteSize_append, ih, letter]

/-- A text of letters is not blank. -/
theorem trimIsEmpty_letters (count : Nat) :
    trimIsEmpty (String.ofList (List.replicate (count + 1) 'a')) = false := by
  have letter : charIsWhitespace 'a' = false := by decide
  have front : (List.replicate (count + 1) 'a').dropWhile charIsWhitespace =
      List.replicate (count + 1) 'a' := by
    rw [List.replicate_succ, List.dropWhile_cons_of_neg (by simp [letter])]
  have back : (List.replicate (count + 1) 'a').rdropWhile charIsWhitespace =
      List.replicate (count + 1) 'a' := by
    rw [List.replicate_succ', List.rdropWhile_concat_neg _ _ _ (by simp [letter])]
  rw [trimIsEmpty, strTrim, String.toList_ofList, front, back, List.replicate_succ]
  simp

/-- A decoder with an identifier of letters. -/
def letterDecoder (count : Nat) : DecoderRequirement :=
  ⟨String.ofList (List.replicate (count + 1) 'a'), 1⟩

/-- Decoders with identifiers of letters are valid as long as these are not too long. -/
theorem validateRequiredDecoders_letters {length : Nat}
    (short : length + 1 ≤ SchemaLoadLimits.default.maximumStringBytes) (count : Nat) :
    SchemaPackage.validateRequiredDecoders .default (List.replicate count (letterDecoder length)) =
      .ok () := by
  have filled : trimIsEmpty (letterDecoder length).id = false := trimIsEmpty_letters length
  have sized : validateString SchemaLoadLimits.default.maximumStringBytes
      (letterDecoder length).id = .ok () := by
    rw [validateString, letterDecoder, utf8ByteSize_letters, if_neg (not_lt.mpr short)]
  induction count with
  | zero => rfl
  | succ count ih =>
    rw [List.replicate_succ, SchemaPackage.validateRequiredDecoders, filled, sized]
    exact ih

/-- Encoded payloads hold the identifiers of the required decoders. -/
def PackageCodec.Verbatim (codec : PackageCodec) : Prop :=
  ∀ payload encoded, codec.toCbor payload = .ok encoded →
    (payload.manifest.requiredDecoders.map (·.id.utf8ByteSize)).sum ≤ encoded.length

/-- A bundle of a package with 1025 long requirements is written, whatever the codec, and cannot be
loaded. -/
theorem not_encodeBundle_loads :
    ¬∀ codec : PackageCodec, codec.Inverts → codec.Verbatim → ∀ packages bytes,
      (∀ package ∈ packages, package.Created codec) → (packages.map (·.game)).Nodup →
      encodeBundle codec packages = .ok bytes →
      ∃ catalog, SchemaCatalog.fromBundleBytes codec bytes = .ok catalog := by
  intro claim
  obtain ⟨codec, inverts, encodes, known⟩ := exists_codec
    (decoderPayload (List.replicate 1025 (letterDecoder 65535))) (List.replicate (1025 * 65536) 0)
  have verbatim : codec.Verbatim := by
    intro other bytes written
    obtain ⟨rfl, rfl⟩ := known other bytes written
    have each : (letterDecoder 65535).id.utf8ByteSize = 65535 + 1 := utf8ByteSize_letters _
    simp only [decoderPayload, decoderManifest, List.map_replicate, each, List.sum_replicate,
      List.length_replicate, smul_eq_mul]
    exact le_refl _
  have limit : 65535 + 1 ≤ SchemaLoadLimits.default.maximumStringBytes := by decide
  have valid := validate_decoderPayload (validateRequiredDecoders_letters limit 1025)
  let package : OwnedPackage := ⟨decoderPayload (List.replicate 1025 (letterDecoder 65535)),
    codec.sha256 (List.replicate (1025 * 65536) 0)⟩
  have size : (List.replicate (1025 * 65536) (0 : UInt8)).length = 67174400 := by
    rw [List.length_replicate]
  have encoding := @encodeBundle_singleton codec package _ valid encodes (by omega)
  have created : ∀ other ∈ [package], other.Created codec := by
    intro other member
    rw [List.mem_singleton.mp member]
    exact OwnedPackage.created_iff.mpr ⟨valid, _, encodes, rfl⟩
  obtain ⟨catalog, loaded⟩ := claim codec inverts verbatim [package] _ created (by simp) encoding
  obtain ⟨others, decoded, _⟩ := bind_eq_ok.mp loaded
  have short := shortPackages_of_decodeBundle encoding (mapError_eq_ok.mp decoded) package
    (by simp) _ encodes
  rw [size] at short
  exact absurd short (by decide)

end Loading

end Bethkit
