import Hwwctl.Emulators.Generic

/-!
# The configuration of the wallets

`wallet_config.rs`, of which only the names of the binaries are used here.
-/

namespace Hwwctl.Emulators

structure WalletConfig where
  walletType : WalletType
  /-- First match wins. -/
  binaryCandidates : List String

namespace WalletConfig

def trezor : WalletConfig where
  walletType := .trezor
  binaryCandidates := ["trezor-emu-core", "trezor-emu", "emulator"]

def bitbox02 : WalletConfig where
  walletType := .bitBox02
  binaryCandidates := ["bitbox02-simulator", "simulator"]

def coldcard : WalletConfig where
  walletType := .coldcard
  binaryCandidates := ["coldcard-sim", "simulator.py"]

def specter : WalletConfig where
  walletType := .specter
  binaryCandidates := ["specter-sim", "main.py"]

def ledger : WalletConfig where
  walletType := .ledger
  binaryCandidates := ["speculos-runner.sh"]

def jade : WalletConfig where
  walletType := .jade
  binaryCandidates := ["jade-runner.sh"]

end WalletConfig

def forWallet : WalletType → WalletConfig
  | .trezor => .trezor
  | .bitBox02 => .bitbox02
  | .coldcard => .coldcard
  | .specter => .specter
  | .ledger => .ledger
  | .jade => .jade

end Hwwctl.Emulators
