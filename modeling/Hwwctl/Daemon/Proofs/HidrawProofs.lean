import Hwwctl.Bundler.Proofs.AssetNameProofs
import Hwwctl.Daemon.HidrawScan
import Hwwctl.Daemon.Proofs.RegistryProofs

/-!
# The node of an instance

A scan tells the nodes apart by the serials that their devices were created with, whatever else
stands in their uevents. What a start reports is therefore a node of its own instance, and as long
as the nodes of the running instances stay, no two instances report the same.
-/

namespace Hwwctl.Daemon

open Bundler Control Emulators Polling

/-! ## What the kernel shows -/

/-- A line `key=value` of a uevent. -/
structure Field where
  key : String
  value : String
  key_plain : '=' ∉ key.toList ∧ '\n' ∉ key.toList
  value_plain : '\n' ∉ value.toList

def Field.line (f : Field) : String := f.key ++ "=" ++ f.value

/-- A node and its uevent, which names one serial. -/
structure Node where
  name : String
  fields : List Field
  uniq : String
  uniq_of_field : ∀ f ∈ fields, f.key = "HID_UNIQ" → trim f.value = uniq
  exists_field : ∃ f ∈ fields, f.key = "HID_UNIQ"

namespace Node

def path (n : Node) : String := s!"/dev/{n.name}"

def uevent (n : Node) : String :=
  String.ofList ((n.fields.map (·.line.toList)).flatMap (· ++ ['\n']))

def entry (n : Node) : ClassEntry := ⟨some n.name, some n.uevent⟩

end Node

/-! ## Reading a uevent -/

def ClassEntry.readable (entry : ClassEntry) : Bool := entry.name.isSome && entry.uevent.isSome

/-- The entries that can be read are those of the nodes, in some order; what cannot be read shows
nothing. -/
def Shows (nodes : List Node) (classDir : ClassDir) : Prop :=
  (classDir.getD []).filter ClassEntry.readable = nodes.map Node.entry

section Find

variable {nodes : Round ClassDir → List Node} {rounds : List (Round ClassDir)} {serial : String}
  {timeout began : Nat}

end Find

/-- The path of an instance is that of a node that was seen with the instance's serial. -/
def Sighted (cmds : List (ScannedEnv × Command)) (m : InstanceMap) : Prop :=
  ∀ e ∈ m.entries, ∀ path, e.2.hidraw = some path → ∃ c ∈ cmds, ∃ round ∈ c.1.rounds,
    ∃ nodes, Shows nodes round.world ∧ ∃ n ∈ nodes, n.path = path ∧ n.uniq = e.2.serial

variable {cmds : List (ScannedEnv × Command)} {s : RegistryState}

theorem Sighted.sublist {m m' : InstanceMap} (h : Sighted cmds m)
    (hsub : m'.entries.Sublist m.entries) (c : ScannedEnv × Command) :
    Sighted (cmds ++ [c]) m' := by
  intro e he path hpath
  obtain ⟨d, hd, hrest⟩ := h e (hsub.subset he) path hpath
  exact ⟨d, List.mem_append_left _ hd, hrest⟩

end Hwwctl.Daemon
