/- SocketChat/Lib/Directory
   digest: A directory of files by name. -/

import Mathlib.Logic.Function.Basic

set_option autoImplicit false
set_option relaxedAutoImplicit false

namespace SocketChat.Lib.Directory

/-- The content of every file by its name; `none` where there is none to read. -/
abbrev Files := List UInt8 → Option (List UInt8)

def Files.create (files : Files) (name : List UInt8) : Files :=
  Function.update files name (some [])

def Files.append (files : Files) (name bytes : List UInt8) : Files :=
  Function.update files name (some ((files name).getD [] ++ bytes))

@[simp] theorem create_same (files : Files) (name : List UInt8) :
    files.create name name = some [] := Function.update_self name _ files

theorem append_same {files : Files} {name written : List UInt8} (h : files name = some written)
    (bytes : List UInt8) : files.append name bytes name = some (written ++ bytes) := by
  simp [Files.append, h]

theorem append_append {files : Files} {name written : List UInt8} (h : files name = some written)
    (first second : List UInt8) :
    (files.append name first).append name second = files.append name (first ++ second) := by
  simp [Files.append, h]

theorem append_nil {files : Files} {name written : List UInt8} (h : files name = some written) :
    files.append name [] = files := by
  rw [Files.append, h, Option.getD_some, List.append_nil, ← h, Function.update_eq_self]

theorem append_create (files : Files) (name bytes : List UInt8) :
    (files.create name).append name bytes = Function.update files name (some bytes) := by
  simp [Files.append, Files.create]

end SocketChat.Lib.Directory
