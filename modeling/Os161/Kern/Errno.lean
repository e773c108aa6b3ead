/-!
# Error codes

`kern/errno.h`. A routine that returns zero on success returns one of these
otherwise.
-/

namespace Os161.Kern

inductive Errno where
  | EINVAL | EFAULT | ENAMETOOLONG | ENOMEM | EIO | ENOENT | ENOTDIR | EISDIR
  | EEXIST | EXDEV | EAGAIN | ESPIPE | EUNIMP | ENXIO | ENODEV | EBUSY | EIOCTL
  | ENOTEMPTY | ERANGE | ENOSPC | EMFILE | ENFILE | ENOSYS | ENOEXEC | E2BIG
  | EBADF
  deriving DecidableEq, Repr

/-- The number of an error code; the list above is in this order, from one. -/
def Errno.code (e : Errno) : Nat := e.ctorIdx + 1

end Os161.Kern
