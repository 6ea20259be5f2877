import Hwwctl.Bundler.Storage

/-!
# Asset names

`parse_asset_name`: what an asset of a release is for, by its name.
-/

namespace Hwwctl.Bundler

open Emulators

/-- `str::strip_prefix`. -/
def stripPrefix (s lead : String) : Option String :=
  (s.toList.dropPrefix? lead.toList).map String.ofList

/-- `str::strip_suffix`. -/
def stripSuffix (s ending : String) : Option String :=
  (s.toList.dropSuffix? ending.toList).map String.ofList

def walletPrefixes : List (String × WalletType) :=
  [("bitbox02", .bitBox02), ("coldcard", .coldcard), ("specter", .specter), ("trezor", .trezor),
    ("ledger", .ledger), ("jade", .jade)]

/-- The body of the loop. -/
def matchWallet (rest : String) (entry : String × WalletType) : Option (WalletType × String) := do
  let platform ← stripPrefix rest entry.1
  let platform ← stripPrefix platform "-"
  if platform = "" then none else some (entry.2, platform)

/-- With any table in the place of `WALLET_PREFIXES`. -/
def parseAssetNameIn (table : List (String × WalletType)) (name : String) :
    Option (WalletType × String) := do
  let stem ← stripSuffix name ".tar.gz"
  let rest ← stripPrefix stem "hwwctl-"
  table.findSome? (matchWallet rest)

def parseAssetName : String → Option (WalletType × String) := parseAssetNameIn walletPrefixes

end Hwwctl.Bundler
