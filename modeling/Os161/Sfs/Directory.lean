import Os161.Lib.Slots
import Os161.Sfs.Volume

/-!
# The directory as a table

What the bytes of the root directory mean: a table of slots, each of them free
or a name with an inode number. `IsDir v es` says that the file `v` is the
directory `es`. Behind the last slot there are only zeros, so a directory whose
size has been raised without anything being written has gained free slots.
-/

namespace Os161.Sfs

open Os161.Kern Os161.Lib

abbrev Entries := Slots CString UInt32

/-- A slot as it is written. -/
def SfsDir.ofSlot : Option (CString × UInt32) → SfsDir
  | none => SfsDir.empty
  | some (name, ino) => SfsDir.entry ino name

/-- A directory has no more slots than fit into 143 blocks. -/
abbrev maxEntries : Nat := 1144

structure IsDir (v : FileView) (es : Entries) : Prop where
  type : v.inode.sfiType = sfsTypeDir
  size : v.inode.sfiSize.toNat = es.length * 64
  room : es.length ≤ maxEntries
  slot : ∀ {i s}, es[i]? = some s → v.slice (i * 64) 64 = (SfsDir.ofSlot s).toBytes
  past : ∀ p, es.length * 64 ≤ p → v.byte p = 0
  wf : ∀ {i name ino}, es.At i name ino → name.strlen + 1 ≤ sfsNamelen ∧ ino ≠ sfsNoino

/-- A slot that may be written. -/
def SlotOk (s : Option (CString × UInt32)) : Prop :=
  ∀ name ino, s = some (name, ino) → name.strlen + 1 ≤ sfsNamelen ∧ ino ≠ sfsNoino

theorem slotOk_some {name : CString} {ino : UInt32} (hn : name.strlen + 1 ≤ sfsNamelen)
    (hi : ino ≠ sfsNoino) : SlotOk (some (name, ino)) := by
  intro name' ino' h
  cases h
  exact ⟨hn, hi⟩

variable {s : Option (CString × UInt32)}

theorem IsDir.slotOk {v : FileView} {es : Entries} (h : IsDir v es) {i : Nat}
    (hs : es[i]? = some s) : SlotOk s := by
  rintro name ino rfl
  exact h.wf hs

namespace SfsDir

theorem length_ofSlot (h : SlotOk s) : (ofSlot s).sfdName.length = 60 := by
  cases s with
  | none => rfl
  | some e =>
    have hn : e.1.strlen + 1 ≤ 60 := (h e.1 e.2 rfl).1
    exact length_entry (show e.1.strlen ≤ 60 by omega)

theorem ofBytes_ofSlot (h : SlotOk s) : ofBytes (ofSlot s).toBytes = ofSlot s :=
  ofBytes_toBytes (length_ofSlot h)

end SfsDir

end Os161.Sfs
