import Vespera.Vfs.DentryCache

/-! # Opening and changing names: the virtual file system

`VFS::open`, `resolve_parent` and the calls that change a directory (`create`,
`mkdir`, `unlink`, `rmdir`, `rename`) of `filesystem/vfs/vfs.cpp` and
`vfs_helper.cpp`, over the dentry cache and any number of mounted file systems.

A file system is known by its `ops->find`, a function of the directory's inode and a
name. A call that changes a directory comes with what the driver does: the `find` that
holds afterwards and the result. Nodes are compared by mount and inode; a node found
in a directory belongs to the directory's mount. Whether a FIFO has, or can get, its
channel is an input of `openPath`.

`reference` is the abstract counterpart: the walk through the owning mount without any
cache.
-/

namespace Vespera.Vfs

open Klib

/-- `ops->find`: the inode found in a directory, and whether it is a FIFO. -/
abbrev FindFn := Nat → Str → Except Error (Nat × Bool)

/-- The directory operations of a file system that may be missing. -/
inductive DirOp where
  | create
  | mkdir
  | unlink
  | rmdir
  | rename
deriving DecidableEq, Repr

structure MountPoint where
  path : Str
  rootInode : Nat
  readOnly : Bool
  hasFind : Bool
  supports : DirOp → Bool

/-- The node of a mount's root directory. -/
def MountPoint.root (mp : MountPoint) (i : Nat) : VfsNode := ⟨i, mp.rootInode, false⟩

/-- The mount table, the file systems on the mounts, and the dentry cache. -/
structure VfsSt where
  mounts : List MountPoint
  fs : Nat → FindFn
  cache : DentryCache

/-! ## The owning mount -/

/-- The test of the loop in `open`, without the length. -/
def MountPoint.Covers (mp : MountPoint) (path : Str) : Prop :=
  mp.path <+: path ∧
    (mp.path = ['/'] ∨ (path.drop mp.path.length).head? = some '/' ∨ path.drop mp.path.length = [])

instance (mp : MountPoint) (path : Str) : Decidable (mp.Covers path) := by
  unfold MountPoint.Covers
  infer_instance

/-- The length to beat, `best_len`. -/
def bestLen (best : Option (Nat × MountPoint)) : Nat :=
  match best with
  | none => 0
  | some (_, mp) => mp.path.length

/-- The loop over the mount points: `i` is the index of the next one. -/
def bestMatchLoop (path : Str) : List MountPoint → Nat → Option (Nat × MountPoint) →
    Option (Nat × MountPoint)
  | [], _, best => best
  | mp :: rest, i, best =>
    bestMatchLoop path rest (i + 1)
      (if mp.Covers path ∧ bestLen best < mp.path.length then some (i, mp) else best)

/-- `best_match`: the covering mount point with the longest path, the first of these. -/
def bestMatch (mounts : List MountPoint) (path : Str) : Option (Nat × MountPoint) :=
  bestMatchLoop path mounts 0 none

/-! ## VFS::open -/

/-- `ops->find` on a node. -/
def findIn (find : FindFn) (node : VfsNode) (name : Str) : Except Error VfsNode :=
  match find node.inode name with
  | .error e => .error e
  | .ok (inode, fifo) => .ok ⟨node.mount, inode, fifo⟩

/-- The loop over the components. A null dentry, at the start and after a failed
insertion, is the root of the cache. -/
def openLoop (fs : Nat → FindFn) : List Str → VfsNode → List Str → DentryCache →
    DentryCache × Except Error VfsNode
  | [], current, _, c => (c, .ok current)
  | name :: rest, current, dentry, c =>
    match DentryCache.lookupComponent c dentry name with
    | (c, some node) => openLoop fs rest node (dentry ++ [name]) c
    | (c, none) =>
      match findIn (fs current.mount) current name with
      | .error e => (c, .error e)
      | .ok node =>
        let inserted := DentryCache.insertComponent c dentry name node
        openLoop fs rest node (inserted.2.getD []) inserted.1

/-- A FIFO needs its channel. -/
def openChannel (chan : Bool) (node : VfsNode) : Except Error VfsNode :=
  if node.fifo ∧ ¬ chan then .error .noMem else .ok node

variable (st : VfsSt)

/-- `VFS::open`. -/
def openPath (path : Str) (chan : Bool) : VfsSt × Except Error VfsNode :=
  if path = [] then (st, .error .inval)
  else
    match DentryCache.lookup st.cache path with
    | (c, some node) => ({ st with cache := c }, openChannel chan node)
    | (c, none) =>
      match bestMatch st.mounts path with
      | none => ({ st with cache := c }, .error .noEnt)
      | some (i, mp) =>
        if ¬ mp.hasFind then ({ st with cache := c }, .error .noSys)
        else
          let subPath := DentryCache.skipSlash (path.drop mp.path.length)
          match openLoop st.fs (splitPath subPath 16) (mp.root i) [] c with
          | (c, .error e) => ({ st with cache := c }, .error e)
          | (c, .ok node) =>
            ({ st with cache := DentryCache.insert c path node }, openChannel chan node)

/-! ## The calls that change a directory -/

/-- What a driver does in such a call: the names afterwards, and the result. -/
structure Outcome where
  find : FindFn
  result : Except Error Unit

/-- `resolve_parent`: the parent directory and the last name. -/
def resolveParent (path : Str) (chan : Bool) : VfsSt × Option (VfsNode × Str) :=
  match (splitPath path 16).getLast? with
  | none => (st, none)
  | some name =>
    -- one component has the parent `/`; the buffer for the path has 256 bytes
    match openPath st ((absPath (splitPath path 16).dropLast).take 255) chan with
    | (st, .error _) => (st, none)
    | (st, .ok parent) => (st, some (parent, name))

def isReadOnly (node : VfsNode) : Bool :=
  match st.mounts[node.mount]? with
  | none => false
  | some mp => mp.readOnly

/-- Does the directory's file system have the operation? -/
def hasOp (node : VfsNode) (op : DirOp) : Bool :=
  match st.mounts[node.mount]? with
  | none => false
  | some mp => mp.supports op

/-- The driver's part: the names of one file system change. -/
def setFind (i : Nat) (find : FindFn) : VfsSt :=
  { st with fs := Function.update st.fs i find }

/-- `DentryCache::invalidate` on the state. -/
def invalidate (path : Str) : VfsSt :=
  { st with cache := DentryCache.invalidate st.cache path }

/-- The common body of `create`, `mkdir`, `unlink` and `rmdir`. -/
def changeName (op : DirOp) (st : VfsSt) (path : Str) (chan : Bool) (driver : Nat → Str → Outcome) :
    VfsSt × Except Error Unit :=
  match resolveParent st path chan with
  | (st, none) => (st, .error .noEnt)
  | (st, some (parent, name)) =>
    if isReadOnly st parent then (st, .error .roFs)
    else if ¬ hasOp st parent op then (st, .error .noSys)
    else
      let out := driver parent.inode name
      let st := setFind st parent.mount out.find
      match out.result with
      | .error e => (st, .error e)
      | .ok () => (invalidate st path, .ok ())

def create := changeName .create

def mkdir := changeName .mkdir

def unlink := changeName .unlink

/-- `VFS::rmdir`: a mount point is not removed. -/
def rmdir (path : Str) (chan : Bool) (driver : Nat → Str → Outcome) : VfsSt × Except Error Unit :=
  if st.mounts.any fun mp => mp.path = path then (st, .error .perm)
  else changeName .rmdir st path chan driver

/-- `VFS::rename`. The parents are compared as pointers: `same` says whether two equal
nodes are one object. -/
def rename (oldPath newPath : Str) (chan same : Bool)
    (driver : Nat → Str → Str → Outcome) : VfsSt × Except Error Unit :=
  match resolveParent st oldPath chan with
  | (st, none) => (st, .error .noEnt)
  | (st, some (oldParent, oldName)) =>
    match resolveParent st newPath chan with
    | (st, none) => (st, .error .noEnt)
    | (st, some (newParent, newName)) =>
      if isReadOnly st oldParent then (st, .error .roFs)
      else if ¬ (oldParent = newParent ∧ same) then (st, .error .xDev)
      else if ¬ hasOp st oldParent .rename then (st, .error .noSys)
      else
        let out := driver oldParent.inode oldName newName
        let st := setFind st oldParent.mount out.find
        match out.result with
        | .error e => (st, .error e)
        | .ok () => (invalidate (invalidate st oldPath) newPath, .ok ())

/-! ## Runs -/

/-- The calls, with what the drivers do in them. -/
inductive Call where
  | openPath (path : Str) (chan : Bool)
  | create (path : Str) (chan : Bool) (driver : Nat → Str → Outcome)
  | mkdir (path : Str) (chan : Bool) (driver : Nat → Str → Outcome)
  | unlink (path : Str) (chan : Bool) (driver : Nat → Str → Outcome)
  | rmdir (path : Str) (chan : Bool) (driver : Nat → Str → Outcome)
  | rename (oldPath newPath : Str) (chan same : Bool) (driver : Nat → Str → Str → Outcome)

/-- One call; the answer is the node of an `open`, if it is one. -/
def step : Call → VfsSt × Except Error (Option VfsNode)
  | .openPath path chan =>
    let r := Vfs.openPath st path chan
    (r.1, r.2.map some)
  | .create path chan driver =>
    let r := Vfs.create st path chan driver
    (r.1, r.2.map fun _ => none)
  | .mkdir path chan driver =>
    let r := Vfs.mkdir st path chan driver
    (r.1, r.2.map fun _ => none)
  | .unlink path chan driver =>
    let r := Vfs.unlink st path chan driver
    (r.1, r.2.map fun _ => none)
  | .rmdir path chan driver =>
    let r := Vfs.rmdir st path chan driver
    (r.1, r.2.map fun _ => none)
  | .rename oldPath newPath chan same driver =>
    let r := Vfs.rename st oldPath newPath chan same driver
    (r.1, r.2.map fun _ => none)

/-- The state after `VFS::init` and mounting. -/
def booted (mounts : List MountPoint) (fs : Nat → FindFn) : VfsSt := ⟨mounts, fs, ⟨[]⟩⟩

/-! ## The reference -/

/-- Walk from a node, one `find` for each component. -/
def walk (find : FindFn) : VfsNode → List Str → Except Error VfsNode
  | node, [] => .ok node
  | node, name :: rest =>
    match findIn find node name with
    | .error e => .error e
    | .ok node => walk find node rest

/-- The owning mount of a path and the components of the path inside it. -/
def route (path : Str) : Option (Nat × MountPoint × List Str) :=
  (bestMatch st.mounts path).map fun (i, mp) => (i, mp, pathSegments (path.drop mp.path.length) [])

/-- What `open` is to return: the walk from the root of the owning mount. -/
def reference (path : Str) : Except Error VfsNode :=
  match route st path with
  | none => .error .noEnt
  | some (i, mp, rest) => if ¬ mp.hasFind then .error .noSys else walk (st.fs i) (mp.root i) rest

end Vespera.Vfs
