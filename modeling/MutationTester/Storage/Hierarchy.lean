import MutationTester.Storage.FileTree

/-!
# The usual hierarchy

What there is on every machine, whatever it is used for: the directories that the hierarchy of
file systems prescribes, two devices, and a few files, of which only that matters whether they
hold a text.
-/

set_option autoImplicit false

namespace MutationTester.Hierarchy

/-- Directories, by the names that lead to them. -/
def directories : List (List String) :=
  [["boot"], ["dev", "fd"], ["dev", "pts"], ["dev", "shm"], ["home"], ["lib"], ["lib64"],
    ["media"], ["mnt"], ["opt"], ["root"], ["run"], ["sbin"], ["srv"], ["tmp"], ["usr", "bin"],
    ["usr", "include"], ["usr", "lib"], ["usr", "local", "bin"], ["usr", "local", "lib"],
    ["usr", "sbin"], ["usr", "share"], ["usr", "src"], ["var", "cache"], ["var", "lib"],
    ["var", "log"], ["var", "tmp"]]

/-- Directories that the system itself fills. -/
def closed : List (List String) := [["proc"], ["proc", "self"], ["proc", "sys"], ["sys"]]

/-- Devices, by the names that lead to them. -/
def devices : List (List String × Device) := [(["dev", "null"], .null), (["dev", "full"], .full)]

/-- What stands for a text. -/
def someText : ByteArray := "#\n".toUTF8

/-- What stands for a program, which is no text. -/
def someProgram : ByteArray := ⟨#[0x7f, 0x45, 0x4c, 0x46, 0xff]⟩

/-- Files, by the names that lead to them. -/
def files : List (List String × ByteArray) :=
  [(["etc", "group"], someText), (["etc", "hostname"], someText), (["etc", "hosts"], someText),
    (["etc", "passwd"], someText), (["bin", "ls"], someProgram), (["bin", "sh"], someProgram),
    (["usr", "bin", "env"], someProgram)]

/-- The hierarchy, with a directory in it that relative paths begin in. -/
def tree (current : List String) : FileTree := ⟨files, devices, directories, closed, current⟩

end MutationTester.Hierarchy
