import Os161.Vfs.State

/-!
# The table of named devices

`vfs/vfslist.c`. An entry has a name, a raw name if something can be mounted on
it, and the volume name of the file system it carries, if that has one. The
first entry that goes by a name is the one that `vfs_getroot` takes.

`vfs_doadd` turns a device away if one of its names is taken. `vfs_mount` does
not look at the volume name it brings in.
-/

namespace Os161.Vfs

open Os161.Kern Os161.Lib

variable {σ : Type}

/-! ## Finding an entry -/

/-- What is left of a round of `vfs_getroot`'s loop once it is clear that the
name is not that of a file system or of a place for one. -/
def getroot.device (devname : CString) (kd : KnownDev) (next : VfsM σ Vnode) : VfsM σ Vnode :=
  if kd.kdName = devname then do
    call (Prog.assert (kd.kdFs = none) .getrootFs)
    call (Prog.assert (kd.kdRawname = none) .getrootRawname)
    call (Prog.assert kd.kdDevice.isSome .getrootDevice)
    call (vnodeIncref kd.vnode)
    pure kd.vnode
  else if kd.kdRawname = some devname then do
    call (Prog.assert kd.kdDevice.isSome .getrootDevice)
    call (vnodeIncref kd.vnode)
    pure kd.vnode
  else next

/-- The loop of `vfs_getroot`. -/
def getroot.loop (O : Ops σ) (devname : CString) : List KnownDev → VfsM σ Vnode
  | [] => throw .ENODEV
  | kd :: rest =>
    match kd.kdFs with
    | some fs =>
      if kd.kdName = devname ∨ O.fsGetvolname fs = some devname then
        call (fsopGetroot O fs)
      else getroot.device devname kd (getroot.loop O devname rest)
    | none =>
      if kd.kdRawname.isSome ∧ kd.kdName = devname then throw Errno.ENXIO
      else getroot.device devname kd (getroot.loop O devname rest)

/-- `vfs_getroot`. -/
def vfsGetroot (O : Ops σ) (devname : CString) : VfsM σ Vnode := do
  let s ← call Prog.mem
  getroot.loop O devname s.knowndevs.v

/-- `vfs_getdevname`. -/
def vfsGetdevname (fs : Fs) : VProg σ (Option CString) := do
  let s ← Prog.mem
  pure ((s.knowndevs.v.find? fun kd => kd.kdFs = some fs).map KnownDev.kdName)

/-! ## Adding an entry -/

/-- The bytes of "raw". -/
def rawSuffix : CString := CString.ofBytes [114, 97, 119]

/-- The name that `mkrawname` puts together. -/
def mkrawname (name : CString) : CString := name.strcat rawSuffix

/-- `samestring`. -/
def samestring : Option CString → Option CString → Bool
  | some a, some b => a = b
  | _, _ => false

/-- `samestring3`. -/
def samestring3 (a b c d : Option CString) : Bool :=
  samestring a b || samestring a c || samestring a d

/-- `badnames`. -/
def badnames (O : Ops σ) (l : List KnownDev) (n1 n2 n3 : Option CString) : Bool :=
  l.any fun kd =>
    samestring3 (kd.kdFs.bind O.fsGetvolname) n1 n2 n3 ||
      (samestring3 kd.kdRawname n1 n2 n3 || samestring3 (some kd.kdName) n1 n2 n3)

/-- Ask for memory, or give up. -/
def alloc : VfsM σ Unit := do
  let p ← call Prog.kmalloc
  if p then pure () else throw .ENOMEM

/-- The memory for `mkrawname`, if something can be mounted on the device. -/
def allocRawname (mountable : Bool) : VfsM σ Unit :=
  if mountable then alloc else pure ()

/-- `vnode_init`'s lock: the structure and its name. -/
def lockCreate : VProg σ Bool := do
  let lock ← Prog.kmalloc
  if lock then Prog.kmalloc else pure false

/-- `dev_create_vnode`: the vnode is put at `vnode`. -/
def devCreateVnode (vnode : Addr) (dev : Option Device) : VfsM σ Unit := do
  alloc
  call (setRefcount (.dev vnode dev) 1)
  call (setOpencount (.dev vnode dev) 0)
  let lock ← call lockCreate
  call (Prog.assert (lock = true) .devVnodeInit)

/-- The table with one more entry, if `array_add` finds the room. -/
def doadd.enter (O : Ops σ) (kd : KnownDev) : VfsM σ Unit := do
  let s ← call Prog.mem
  if badnames O s.knowndevs.v (some kd.kdName) kd.kdRawname (kd.kdFs.bind O.fsGetvolname) then
    throw .EEXIST
  else do
    let a ← arrayAdd s.knowndevs kd
    call (Prog.put { s with knowndevs := a })

/-- `vfs_doadd`. After `puke` the vnode is freed. -/
def vfsDoadd (O : Ops σ) (dname : CString) (mountable : Bool) (dev : Option Device)
    (fs : Option Fs) (hdev : mountable = true ∨ fs = none → dev.isSome) (vnode : Addr) :
    VfsM σ Unit := do
  alloc
  allocRawname mountable
  devCreateVnode vnode dev
  let kd ← call Prog.kmalloc
  if kd then
    doadd.enter O
      { kdName := dname
        kdRawname := if mountable then some (mkrawname dname) else none
        kdDevice := dev
        kdVnode := vnode
        kdFs := fs
        raw := fun h => by
          cases mountable with
          | true => exact hdev (.inl rfl)
          | false => cases h
        bare := fun h => hdev (.inr h) }
  else do
    call (setRefcount (.dev vnode dev) 0)
    throw .ENOMEM

/-- `vfs_adddev`. -/
def vfsAdddev (O : Ops σ) (devname : CString) (dev : Device) (mountable : Bool)
    (vnode : Addr) : VfsM σ Unit :=
  vfsDoadd O devname mountable (some dev) none (fun _ => rfl) vnode

/-- `vfs_addfs`. -/
def vfsAddfs (O : Ops σ) (devname : CString) (fs : Fs) (vnode : Addr) : VfsM σ Unit :=
  vfsDoadd O devname false none (some fs)
    (fun h => absurd h (by simp)) vnode

/-! ## Mounting -/

/-- `kd->kd_fs = fs`. -/
def KnownDev.mount (kd : KnownDev) (fs : Fs) : KnownDev :=
  { kd with kdFs := some fs, bare := fun h => absurd h (by simp) }

/-- `kd->kd_fs = NULL`, where there is a device. -/
def KnownDev.unmount (kd : KnownDev) (h : kd.kdDevice.isSome) : KnownDev :=
  { kd with kdFs := none, bare := fun _ => h }

/-- `findmount`. -/
def findmount (devname : CString) (l : List KnownDev) : Option (Fin l.length) :=
  l.findFinIdx? fun kd => kd.kdRawname.isSome && kd.kdName = devname

/-- `vfs_mount` from the entry on. -/
def mount.entry (mountfunc : Device → BelowE σ Fs) (i : Nat) (kd : KnownDev) : VfsM σ Unit :=
  match kd.kdFs with
  | some _ => throw .EBUSY
  | none => do
      call (Prog.assert kd.kdRawname.isSome .mountRawname)
      match kd.kdDevice with
      | none => call (Prog.panic .mountDevice)
      | some dev => do
          let r ← call (below (mountfunc dev))
          match r with
          | .error e => throw e
          | .ok fs => call (Prog.modify fun s =>
            { s with knowndevs := s.knowndevs.set i (kd.mount fs) })

/-- `vfs_mount`. -/
def vfsMount (devname : CString) (mountfunc : Device → BelowE σ Fs) : VfsM σ Unit := do
  let s ← call Prog.mem
  match findmount devname s.knowndevs.v with
  | none => throw .ENODEV
  | some i => mount.entry mountfunc i (s.knowndevs.v.get i)

/-- FSOP_SYNC and FSOP_UNMOUNT; without an error the file system is dropped. -/
def unmount.drop (O : Ops σ) (i : Nat) (kd : KnownDev) (fs : Fs) (h : kd.kdDevice.isSome) :
    VfsM σ Unit := do
  let r ← call (below (O.fsSync fs))
  match r with
  | .error e => throw e
  | .ok () => do
      let r ← call (below (O.fsUnmount fs))
      match r with
      | .error e => throw e
      | .ok () => call (Prog.modify fun s =>
        { s with knowndevs := s.knowndevs.set i (kd.unmount h) })

/-- `vfs_unmount` from the entry on. -/
def unmount.entry (O : Ops σ) (i : Nat) (kd : KnownDev) : VfsM σ Unit :=
  match kd.kdFs with
  | none => throw .EINVAL
  | some fs => do
      call (Prog.assert kd.kdRawname.isSome .unmountRawname)
      if h : kd.kdDevice.isSome then unmount.drop O i kd fs h
      else call (Prog.panic .unmountDevice)

/-- `vfs_unmount`. -/
def vfsUnmount (O : Ops σ) (devname : CString) : VfsM σ Unit := do
  let s ← call Prog.mem
  match findmount devname s.knowndevs.v with
  | none => throw .ENODEV
  | some i => unmount.entry O i (s.knowndevs.v.get i)

/-- FSOP_UNMOUNT in `vfs_unmountall`; after an error the loop goes on. -/
def unmountall.drop (O : Ops σ) (i : Nat) (kd : KnownDev) (fs : Fs) (h : kd.kdDevice.isSome) :
    VProg σ Unit := do
  let r ← below (O.fsUnmount fs)
  match r with
  | .error _ => pure ()
  | .ok () => Prog.modify fun s => { s with knowndevs := s.knowndevs.set i (kd.unmount h) }

/-- One round of `vfs_unmountall`: a failed FSOP_SYNC is tried again once. -/
def unmountall.entry (O : Ops σ) (i : Nat) (kd : KnownDev) : VProg σ Unit :=
  if h : kd.kdRawname.isSome then
    match kd.kdFs with
    | none => pure ()
    | some fs => do
        let r ← below (O.fsSync fs)
        match r with
        | .ok () => unmountall.drop O i kd fs (kd.raw h)
        | .error _ => do
            let r ← below (O.fsSync fs)
            match r with
            | .ok () => unmountall.drop O i kd fs (kd.raw h)
            | .error _ => pure ()
  else pure ()

/-- The loop of `vfs_unmountall`, from entry `i` on. A round changes nothing
but its own entry, so the entries ahead are those of the beginning. -/
def unmountall.loop (O : Ops σ) : Nat → List KnownDev → VProg σ Unit
  | _, [] => pure ()
  | i, kd :: rest => do
      unmountall.entry O i kd
      unmountall.loop O (i + 1) rest

/-- `vfs_unmountall`. -/
def vfsUnmountall (O : Ops σ) : VProg σ Unit := do
  let s ← Prog.mem
  unmountall.loop O 0 s.knowndevs.v

end Os161.Vfs
