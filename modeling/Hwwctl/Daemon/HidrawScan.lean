import Hwwctl.Bundler.AssetName
import Hwwctl.Daemon.Registry
import Hwwctl.Library.Lines
import Hwwctl.Library.Polling

/-!
# Finding the hidraw node

`find_hidraw_by_serial` scans `/sys/class/hidraw` until it finds a node whose `device/uevent` has
the serial on its `HID_UNIQ` line, or the deadline has come. The kernel adds nodes and takes them
away between two scans.
-/

namespace Hwwctl.Daemon

open Bundler Control Polling

/-- A line without the carriage return before its newline. -/
def stripCr (line : List Char) : List Char :=
  if line.getLast? = some '\r' then line.dropLast else line

/-- `str::lines`. What follows the last newline is a line unless it is empty, and keeps its `\r`. -/
def lines (s : String) : List String :=
  let last := [Lines.rest '\n' s.toList].filter (· ≠ [])
  ((Lines.complete '\n' s.toList).map stripCr ++ last).map String.ofList

/-- `str::trim`. -/
def trim (s : String) : String :=
  let start := s.toList.dropWhile isWhitespace
  String.ofList (start.reverse.dropWhile isWhitespace).reverse

def ueventHasUniq (uevent serial : String) : Bool :=
  (lines uevent).any fun line =>
    match stripPrefix line "HID_UNIQ=" with
    | some v => trim v = serial
    | none => false

/-- An entry of the class directory. -/
structure ClassEntry where
  /-- `none` when the name is not UTF-8. -/
  name : Option String
  /-- The text of `device/uevent`, if it can be read. -/
  uevent : Option String
deriving DecidableEq, Repr

/-- What `read_dir` lists, without the entries that cannot be read; `none` when it fails. -/
abbrev ClassDir := Option (List ClassEntry)

/-- The path that an entry leads to, if it is the node. -/
def ClassEntry.matches (serial : String) (entry : ClassEntry) : Option String := do
  let name ← entry.name
  let _ ← stripPrefix name "hidraw"
  let content ← entry.uevent
  if ueventHasUniq content serial then some s!"/dev/{name}" else none

def scanOnce (serial : String) (classDir : ClassDir) : Option String :=
  classDir.bind fun entries => entries.findSome? (ClassEntry.matches serial)

/-- `HIDRAW_SETTLE_TIMEOUT`, in milliseconds. -/
def hidrawSettleTimeout : Nat := 3000

/-- `none` while it is still scanning. -/
def findHidrawBySerial (serial : String) (timeout began : Nat) (rounds : List (Round ClassDir)) :
    Option (Option String) :=
  askFirst (scanOnce serial) (began + timeout) rounds

/-- What a command meets, where the answer about the hidraw node is the one the scans give. -/
structure ScannedEnv where
  env : CommandEnv
  began : Nat
  rounds : List (Round ClassDir)
  scanned : findHidrawBySerial s!"hwwctl-bb02-{randomSuffix env.spawn}" hidrawSettleTimeout began
    rounds = some env.spawn.findHidrawBySerial

end Hwwctl.Daemon
