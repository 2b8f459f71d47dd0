import ElfLoader.Basic
import ElfLoader.CString
import ElfLoader.Dynamic
import ElfLoader.MiniLoader
import ElfLoader.Relocation.BitMap
import ElfLoader.Relocation.Iterator
import ElfLoader.Relocation.Walk
import ElfLoader.Relocation.RelaArray
import ElfLoader.Relocation.Bookkeeping
import ElfLoader.Relocation.Dylib
import ElfLoader.Relocation.Finish
import ElfLoader.Relocation.Resolve
import ElfLoader.Relocation.Calls
import ElfLoader.Relocation.Incremental
import ElfLoader.Relocation.Run
import ElfLoader.Relocation.Writes
import ElfLoader.Overflow
import ElfLoader.Object
