import Bethkit.Archive.Types

/-!
# Hashes of archive paths

The hashes under which the files and folders of an archive are sorted.
-/

namespace Bethkit

open Lib

/-- `u32::rotate_right`. -/
def u32RotateRight (word count : UInt32) : UInt32 :=
  UInt32.ofBitVec (word.toBitVec.rotateRight count.toNat)

/-- The hash of a file of a Morrowind archive. -/
def hashTes3 (filename : Bytes) : UInt64 :=
  let s := filename.map byteToAsciiLowercase
  let l := s.length / 2
  let shifted (byte : UInt8) (off : UInt32) : UInt32 := byte.toUInt32 <<< (off &&& 0x1F)
  let hi := (s.take l).foldl
    (fun state byte => (state.1 ^^^ shifted byte state.2, state.2 + 8)) ((0, 0) : UInt32 × UInt32)
  let lo := (s.drop l).foldl
    (fun state byte =>
      let temp := shifted byte state.2
      (u32RotateRight (state.1 ^^^ temp) (temp &&& 0x1F), state.2 + 8)) ((0, 0) : UInt32 × UInt32)
  (hi.1.toUInt64 <<< 32) ||| lo.1.toUInt64

/-- The sdbm hash of a byte string. -/
def sdbm (bytes : Bytes) : UInt32 :=
  bytes.foldl (fun hash byte => byte.toUInt32 + (hash <<< 6) + (hash <<< 16) - hash) 0

/-- The bits of a known extension. -/
def hashExtensionBits (ext : Bytes) : UInt64 :=
  let key := leValue (ext.take 4)
  if key = 0x00666B2E then 0x80
  else if key = 0x66696E2E then 0x8000
  else if key = 0x7364642E then 0x8080
  else if key = 0x7661772E then 0x80000000
  else 0

/-- The hash of a file: its stem and its extension with the dot. -/
def hashTes4File (name ext : Bytes) : UInt64 :=
  let s := name.map byteToAsciiLowercase
  let e := ext.map byteToAsciiLowercase
  let l := s.length
  if l = 0 then 0
  else
    let result := (s.getD (l - 1) 0).toUInt64
    let result := if 2 < l then result ||| ((s.getD (l - 2) 0).toUInt64 <<< 8) else result
    let result := result ||| (UInt64.ofNat l <<< 16)
    let result := result ||| ((s.getD 0 0).toUInt64 <<< 24)
    let result := result ||| hashExtensionBits e
    -- the interior characters, without the first, the last and the one before it
    let hash := if 2 < l then sdbm (Bytes.slice s 1 (l - 2)) else 0
    result + ((hash + sdbm e).toUInt64 <<< 32)

/-- The hash of a folder. -/
def hashTes4Dir (dirPath : Bytes) : UInt64 := hashTes4File dirPath []

/-- One bit of an entry of the CRC-32 table. -/
def crc32Step (c : UInt32) : UInt32 := if c &&& 1 ≠ 0 then (0xEDB88320 : UInt32) ^^^ (c >>> 1) else c >>> 1

/-- An entry of the CRC-32 table. -/
def crc32Table (i : UInt32) : UInt32 := crc32Step^[8] i

/-- The hash of a part of a path in a BA2 archive: a CRC-32 without inversions, of the ASCII bytes in
lower case and with backslashes. -/
def hashFo4 (s : Bytes) : UInt32 :=
  s.foldl (fun result byte =>
    if 127 < byte then result
    else
      let c := if byte = 47 then 92 else byteToAsciiLowercase byte
      (result >>> 8) ^^^ crc32Table ((result ^^^ c.toUInt32) &&& 0xFF)) 0

end Bethkit
