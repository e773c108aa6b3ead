import Os161.Kern.ArrayCells
import Os161.Proofs.Bitmap
import Os161.Proofs.Bootfs
import Os161.Proofs.CatlockTurns
import Os161.Proofs.Catsem
import Os161.Proofs.Console
import Os161.Proofs.LhdRuns
import Os161.Proofs.Discard
import Os161.Proofs.ForkFails
import Os161.Proofs.Getdevice
import Os161.Proofs.PidUnique
import Os161.Proofs.Pidlock
import Os161.Proofs.Ring
import Os161.Proofs.Room
import Os161.Proofs.Synch
import Os161.Proofs.Uiomove
import Os161.Proofs.WriteSize
import Os161.Proofs.Printf
import Os161.Proofs.Pseudorand
import Os161.Proofs.Isolation
import Os161.Proofs.ArgLimits
import Os161.Proofs.HeapRuns
import Os161.Proofs.Loadexec
import Os161.Proofs.Lseek
import Os161.Proofs.Open
