import ByteMachine.CommandLine.Files

/-! What there is among the files on every system: the usual directories, the
devices, and the places where a process finds its streams and directories. -/
namespace ByteMachine.CommandLine.Files

def usualDirectories : List String :=
  ["bin", "boot", "dev", "etc", "home", "lib", "media", "mnt", "opt", "proc", "root", "run",
    "sbin", "srv", "sys", "tmp", "usr", "var"]

def processPlace : Place := ["proc", "self"]

def streamsPlace : Place := processPlace ++ ["fd"]

def devices : List (Place × Content) :=
  [(["dev", "null"], .device .null), (["dev", "full"], .device .full),
    (["dev", "tty"], .device .terminal), (streamsPlace ++ ["0"], .device .null),
    (streamsPlace ++ ["1"], .device .output), (streamsPlace ++ ["2"], .device .errors)]

def standardLinks (working : Place) : List (Place × Place) :=
  [(["dev", "stdin"], streamsPlace ++ ["0"]), (["dev", "stdout"], streamsPlace ++ ["1"]),
    (["dev", "stderr"], streamsPlace ++ ["2"]), (["dev", "fd"], streamsPlace),
    (processPlace ++ ["cwd"], working), (processPlace ++ ["root"], [])]

/-- The files of a system on which nothing else has been stored. Nothing comes in on
the input stream. -/
def standard (working : Place) : Files where
  working
  files := devices
  directories := usualDirectories.map fun name => [name]
  links := standardLinks working
  fixed := [["proc"], processPlace, streamsPlace]

end ByteMachine.CommandLine.Files
