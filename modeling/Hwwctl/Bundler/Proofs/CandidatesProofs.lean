import Hwwctl.Bundler.Storage
import Hwwctl.Emulators.WalletConfig
import Mathlib.Data.List.TakeWhile

/-!
# Two lists of binary names

`find_emulator_binary` goes by names of its own, then by what is executable, and not by the names in
the table of wallets.
-/

namespace Hwwctl.Bundler

open FileTree Emulators

theorem toStr_eq_some {name : OsString} {s : String} : toStr name = some s ↔ name = osString s := by
  unfold toStr osString String.fromUTF8?
  constructor
  · intro h
    split_ifs at h with hvalid
    cases h
    rfl
  · rintro rfl
    have hvalid : (ByteArray.mk s.toUTF8.data.toList.toArray).IsValidUTF8 := s.isValidUTF8
    rw [dif_pos hvalid]
    rfl

theorem find?_eq_some_iff_takeWhile {α : Type} [DecidableEq α] {p : α → Bool} {a : α}
    (ha : p a = true) {as : List α} :
    as.find? p = some a ↔ a ∈ as ∧ ∀ b ∈ as.takeWhile (· ≠ a), p b = false := by
  induction as with
  | nil => simp
  | cons b as ih =>
    by_cases hba : b = a
    · subst hba
      simp [ha]
    · have hne : a ≠ b := fun h => hba h.symm
      cases hp : p b with
      | true => simp [hp, hba]
      | false => simp [hp, hba, hne, ih]

section Candidates

variable (order : List OsString → List OsString) (tree : FsTree) (bundleDir : FilePath)
  (walletType : WalletType)

def present (name : String) : Bool := (stat tree (bundleDir ++ [.normal (osString name)])).isSome

/-- The first executable file that the system lists, among those whose name is a string. -/
def scanned : Option String :=
  ((readDir order tree bundleDir).getD []).findSome? fun name =>
    if isExecutableFile tree (bundleDir ++ [.normal name]) then toStr name else none

/-- The name that the table of wallets prefers among those that are there. -/
def preferred : Option String :=
  (forWallet walletType).binaryCandidates.find? (present tree bundleDir)

/-- The bundler takes the name that the table prefers, if any of the table's names is there. -/
def AgreesWithTable : Prop :=
  ∀ name, preferred tree bundleDir walletType = some name →
    findEmulatorBinary order tree bundleDir walletType = name

/-- The system lists `name`, an executable file, before every other one whose name is a string. -/
def ListedFirst (name : String) : Prop :=
  isExecutableFile tree (bundleDir ++ [.normal (osString name)]) = true ∧
  ∃ before after, (readDir order tree bundleDir).getD [] = before ++ osString name :: after ∧
    ∀ other ∈ before, isExecutableFile tree (bundleDir ++ [.normal other]) = true → toStr other = none

/-- None of the bundler's names that come before the one that the table prefers is there; and where
that one is not among them, it is the first executable file. -/
def NothingBefore : Prop :=
  ∀ name, preferred tree bundleDir walletType = some name →
    (∀ other ∈ (binaryNames walletType).takeWhile (· ≠ name), present tree bundleDir other = false) ∧
    (name ∈ binaryNames walletType ∨ ListedFirst order tree bundleDir name)

variable {order tree bundleDir walletType}

theorem scanned_iff {name : String} :
    scanned order tree bundleDir = some name ↔ ListedFirst order tree bundleDir name := by
  rw [scanned, List.findSome?_eq_some_iff]
  constructor
  · rintro ⟨before, found, after, hlist, hfound, hbefore⟩
    split_ifs at hfound with hexec
    obtain rfl := toStr_eq_some.mp hfound
    refine ⟨hexec, before, after, hlist, fun other hother hexec' => ?_⟩
    simpa [hexec'] using hbefore other hother
  · rintro ⟨hexec, before, after, hlist, hbefore⟩
    refine ⟨before, osString name, after, hlist, ?_, fun other hother => ?_⟩
    · rw [if_pos hexec]
      exact toStr_eq_some.mpr rfl
    · split_ifs with hexec'
      · exact hbefore other hother hexec'
      · rfl

/-- The name made up at last. -/
theorem toLower_display (walletType : WalletType) :
    walletType.display.toLower = walletDirName walletType := by
  refine String.toList_injective ?_
  show (walletType.display.map Char.toLower).toList = _
  rw [String.toList_map]
  cases walletType <;> rfl

theorem findEmulatorBinary_eq (order : List OsString → List OsString) (tree : FsTree)
    (bundleDir : FilePath) (walletType : WalletType) :
    findEmulatorBinary order tree bundleDir walletType =
      (((binaryNames walletType).find? (present tree bundleDir)).or
        (scanned order tree bundleDir)).getD (walletDirName walletType) := by
  rw [← toLower_display]
  rfl

theorem walletDirName_not_candidate (walletType : WalletType) :
    walletDirName walletType ∉ (forWallet walletType).binaryCandidates := by
  cases walletType <;> decide

theorem candidates_agree_iff (order : List OsString → List OsString) (tree : FsTree)
    (bundleDir : FilePath) (walletType : WalletType) :
    AgreesWithTable order tree bundleDir walletType ↔
      NothingBefore order tree bundleDir walletType := by
  refine forall_congr' fun name => forall_congr' fun hname => ?_
  have hpresent : present tree bundleDir name = true := List.find?_some hname
  have hmem := List.mem_of_find?_eq_some hname
  have hknown : (binaryNames walletType).find? (present tree bundleDir) = some name ↔
      name ∈ binaryNames walletType ∧
        ∀ other ∈ (binaryNames walletType).takeWhile (· ≠ name),
          present tree bundleDir other = false :=
    find?_eq_some_iff_takeWhile hpresent
  rw [findEmulatorBinary_eq]
  cases hfirst : (binaryNames walletType).find? (present tree bundleDir) with
  | some first =>
    have hfirstPresent : present tree bundleDir first = true := List.find?_some hfirst
    show first = name ↔ _
    rw [← Option.some_inj, ← hfirst, hknown]
    constructor
    · rintro ⟨hin, hbefore⟩
      exact ⟨hbefore, .inl hin⟩
    · rintro ⟨hbefore, hin⟩
      -- The name found is not before the preferred one, so that is on the list.
      refine ⟨?_, hbefore⟩
      by_contra hout
      have hall : (binaryNames walletType).takeWhile (· ≠ name) = binaryNames walletType := by
        refine List.takeWhile_eq_self_iff.mpr fun other hother => ?_
        have hne : other ≠ name := fun heq => hout (heq ▸ hother)
        simpa using hne
      rw [hall] at hbefore
      rw [hbefore first (List.mem_of_find?_eq_some hfirst)] at hfirstPresent
      cases hfirstPresent
  | none =>
    have habsent : ∀ other ∈ binaryNames walletType, present tree bundleDir other = false := by
      simpa using List.find?_eq_none.mp hfirst
    have hout : name ∉ binaryNames walletType := by
      intro hin
      rw [habsent name hin] at hpresent
      cases hpresent
    rw [Option.none_or]
    constructor
    · intro hscan
      refine ⟨fun other hother => habsent other (List.takeWhile_subset _ hother), .inr ?_⟩
      rw [← scanned_iff]
      cases hfound : scanned order tree bundleDir with
      | some found =>
        rw [hfound] at hscan
        rw [← hscan, Option.getD_some]
      | none =>
        rw [hfound, Option.getD_none] at hscan
        exact absurd (hscan ▸ hmem) (walletDirName_not_candidate walletType)
    · rintro ⟨-, hlisted⟩
      rw [scanned_iff.mpr (hlisted.resolve_left hout), Option.getD_some]

end Candidates

/-- A bundle with a binary under a name that only the bundler goes by, and one under the name that
the table puts first. -/
def bothBinaries : FsTree :=
  let binary := Node.leaf (.file ⟨[], true⟩)
  ((do
    let tree ← Tree.empty.put [osString "bitbox02"] .dir
    let tree ← tree.put [osString "bitbox02-emu", osString "bitbox02"] binary
    tree.put [osString "bitbox02-simulator", osString "bitbox02"] binary : Option FsTree)).getD
      .empty

theorem candidates_disagree :
    ¬ AgreesWithTable id bothBinaries (components (osString "/bitbox02")) .bitBox02 := by
  intro h
  have hpreferred : preferred bothBinaries (components (osString "/bitbox02")) .bitBox02 =
      some "bitbox02-simulator" := by
    decide +kernel
  have hfound : findEmulatorBinary id bothBinaries (components (osString "/bitbox02")) .bitBox02 =
      "bitbox02-emu" := by
    decide +kernel
  have hsame := hfound.symm.trans (h _ hpreferred)
  simp at hsame

end Hwwctl.Bundler
