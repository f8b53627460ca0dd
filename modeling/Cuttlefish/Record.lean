import Cuttlefish.ScanRoot
import Mathlib.Data.List.DropRight

/-!
# Cuttlefish.Record

What the walk emits: the path hash, the parent of a path and the
`FileRecord` the walker's visitor builds for one filesystem entry.

SHA-256 comes from a third-party crate, so it enters as a `Digest`; all the
project uses of it is the width of its result.
-/

namespace Cuttlefish

/-! ## path hashes -/

/-- A SHA-256 implementation: an arbitrary function with 32-byte results. -/
structure Digest where
  sha256 : Bytes → Bytes
  length_sha256 : ∀ b, (sha256 b).length = 32

/-- Byte width of the `path_hash` and `parent_hash` keys. -/
def pathHashLen : Nat := 16

/-- Hashes a path as the raw bytes the kernel returned. -/
def computeHashBytes (d : Digest) (path : Bytes) : Bytes := (d.sha256 path).take pathHashLen

/-- Hashes a path given as text. -/
def computeHash (d : Digest) (path : Text) : Bytes := computeHashBytes d (utf8 path)

/-- Every hash written has the declared width. -/
theorem length_computeHashBytes (d : Digest) (path : Bytes) :
    (computeHashBytes d path).length = pathHashLen := by
  rw [computeHashBytes, List.length_take, d.length_sha256]
  rfl

/-- The truncated digest has no collision among `paths`. -/
def CollisionFree (d : Digest) (paths : Set Bytes) : Prop :=
  Set.InjOn (computeHashBytes d) paths

/-- SHA-256 as far as the paths `/`, `/home`, `/home/a` and `/srv` go. -/
def sampleDigest : Digest where
  sha256 b :=
    if b = [47] then
      [138, 94, 218, 178, 130, 99, 36, 67, 33, 158, 5, 30, 74, 222, 45, 29,
        91, 188, 103, 28, 120, 16, 81, 191, 20, 55, 137, 124, 189, 254, 160, 241]
    else if b = [47, 104, 111, 109, 101] then
      [44, 201, 116, 175, 106, 252, 130, 44, 66, 164, 233, 20, 223, 5, 198, 151,
        52, 139, 128, 66, 9, 65, 246, 178, 117, 97, 178, 191, 104, 133, 135, 183]
    else if b = [47, 104, 111, 109, 101, 47, 97] then
      [41, 206, 56, 82, 41, 232, 95, 113, 158, 15, 251, 159, 231, 214, 189, 200,
        220, 189, 27, 227, 233, 173, 2, 27, 198, 143, 171, 76, 20, 235, 78, 185]
    else if b = [47, 115, 114, 118] then
      [163, 217, 172, 79, 222, 233, 194, 66, 78, 47, 233, 87, 66, 244, 95, 125,
        81, 52, 66, 106, 238, 115, 78, 119, 130, 1, 245, 219, 22, 23, 65, 204]
    else List.replicate 32 0
  length_sha256 b := by
    split_ifs <;> rfl

/-! ## parents -/

/-- The parent path, found bytewise: trailing separators go, then the last
component.  `/` and a path without a separator have none. -/
def getParentPath (path : Bytes) : Option Bytes :=
  if path = [slash] then none
  else
    let trimmed := path.rdropWhile (· = slash)
    match trimmed.reverse.dropWhile (· ≠ slash) with
    | [] => none
    | _ :: up => some (if up = [] then [slash] else up.reverse)

/-! ## records -/

/-- What `stat` reports of an entry, as far as the visitor reads it. -/
structure Metadata where
  len : UInt64
  mode : UInt32
  uid : UInt32
  gid : UInt32
  atime : Int
  mtime : Int
  ctime : Int
  deriving DecidableEq, Repr

/-- Metadata record for a single filesystem entry. -/
structure FileRecord where
  path : Text
  pathRaw : Option Bytes
  pathHash : Bytes
  parentHash : Option Bytes
  sizeBytes : Int
  fileType : Int
  permissions : Text
  uid : UInt32
  gid : UInt32
  atime : Int
  mtime : Int
  ctime : Int
  metadata : Text
  deriving DecidableEq, Repr

/-- The file type code stored for a mode: regular file, directory, symbolic
link, anything else. -/
def fileTypeOf (mode : UInt32) : Int :=
  if mode &&& 0o170000 = 0o100000 then 1
  else if mode &&& 0o170000 = 0o040000 then 2
  else if mode &&& 0o170000 = 0o120000 then 3
  else 0

/-- The record the visitor sends for an entry at `raw`.  `path` is the lossy
rendering, and `pathRaw` is kept exactly when the rendering had to
substitute something. -/
def fileRecord (d : Digest) (raw : Bytes) (md : Metadata) : FileRecord where
  path := fromUtf8Lossy raw
  pathRaw := if IsUtf8 raw then none else some raw
  pathHash := computeHashBytes d raw
  parentHash := (getParentPath raw).map (computeHashBytes d)
  sizeBytes := md.len.toInt64.toInt
  fileType := fileTypeOf md.mode
  permissions := Nat.toDigits 8 (md.mode &&& 0o777).toNat
  uid := md.uid
  gid := md.gid
  atime := md.atime
  mtime := md.mtime
  ctime := md.ctime
  metadata := []

end Cuttlefish
