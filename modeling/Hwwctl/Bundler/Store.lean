import Hwwctl.Bundler.Manager
import Hwwctl.Bundler.Members
import Hwwctl.Library.Linearizable

/-!
# What the bundle manager is for

It keeps a store of bundles, at most one for each wallet. This is the store on its own: what an
operation does to it, by what the operation was and whether it succeeded. The files are left out,
except that a download that fails may have unpacked a manifest of the archive's own by then.
-/

namespace Hwwctl.Bundler

open FileTree Io Emulators

/-- The manifests of what is installed. -/
abbrev Store := WalletType → Option BundleManifest

/-- The archive has an entry for something of this name in the bundle directory, or below it. -/
def Brings (env : ExtractEnv) (first : OsString) : Prop :=
  ∃ bytes entries e path, env.entries bytes = some entries ∧ some e ∈ entries ∧
    e.path = some path ∧ (landing path).head? = some first

/-- The manifest that is written when this bundle has been installed. -/
structure IsManifestOf (env : DownloadEnv) (bundle : RemoteBundle) (m : BundleManifest) : Prop where
  walletType : m.walletType = bundle.walletType
  version : m.version = bundle.version
  platform : m.platform = bundle.platform
  installedAt : m.installedAt = env.timestamp
  buildInfo : m.buildInfo = none

/-- The system lists what is there and lets it be removed. -/
structure Obliging (env : RemoveEnv) : Prop where
  grants : ∀ l, env.grants l = true
  order : ∀ names, (env.order names).Perm names

/-- What an operation may do to the store, and whether it succeeds then. -/
inductive Effect : Operation → Store → Bool → Store → Prop where
  | installs {env : DownloadEnv} {bundle : RemoteBundle} {store : Store} {m : BundleManifest}
      (h : IsManifestOf env bundle m) :
      Effect (.download env bundle) store true
        (Function.update store bundle.walletType (some m))
  | fails {env : DownloadEnv} {bundle : RemoteBundle} {store : Store} :
      Effect (.download env bundle) store false store
  | overwrites {env : DownloadEnv} {bundle : RemoteBundle} {store : Store}
      (h : Brings env.extract (osString "manifest.json")) (m : Option BundleManifest) :
      Effect (.download env bundle) store false (Function.update store bundle.walletType m)
  | removes {env : RemoveEnv} {w : WalletType} {store : Store} {ok : Bool}
      (h : Obliging env → ok = true) :
      Effect (.remove env w) store ok (Function.update store w none)
  | refuses {env : RemoveEnv} {w : WalletType} {store : Store} (h : ¬ Obliging env) :
      Effect (.remove env w) store false store

/-- An operation that has been done; the reply says whether it succeeded. -/
abbrev Done := Linearizable.Entry Operation Bool

/-- The operation is about another wallet, or it is a download that has failed and does not bring a
manifest. -/
def Spares (w : WalletType) (e : Done) : Prop :=
  e.op.walletType ≠ w ∨
    ∃ env bundle, e.op = .download env bundle ∧ e.reply = false ∧
      ¬ Brings env.extract (osString "manifest.json")

/-- What a wallet's manifest can be when the operation has succeeded. -/
def Leaves : Operation → Option BundleManifest → Prop
  | .download env bundle, m? => ∃ m, m? = some m ∧ IsManifestOf env bundle m
  | .remove _ _, m? => m? = none

/-! ## What follows for the last operation on a wallet -/

section Effect

variable {op : Operation} {store store' : Store} {ok : Bool} {w : WalletType}

theorem Effect.other (h : Effect op store ok store') (hw : op.walletType ≠ w) :
    store' w = store w := by
  have hupdate : ∀ m : Option BundleManifest, Function.update store op.walletType m w = store w :=
    fun m => Function.update_of_ne hw.symm m store
  cases h with
  | installs _ => exact hupdate _
  | fails => rfl
  | overwrites _ m => exact hupdate m
  | removes _ => exact hupdate none
  | refuses _ => rfl

theorem Effect.leaves (h : Effect op store true store') : Leaves op (store' op.walletType) := by
  have hupdate : ∀ m : Option BundleManifest,
      Function.update store op.walletType m op.walletType = m :=
    fun m => Function.update_self op.walletType m store
  cases h with
  | installs hm => exact ⟨_, hupdate _, hm⟩
  | removes _ => exact hupdate none

end Effect

/-! ## The manager at work -/

end Hwwctl.Bundler
