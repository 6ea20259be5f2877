import Hwwctl.Bundler.Proofs.AssetNameProofs
import Hwwctl.Bundler.Proofs.DownloadProofs
import Hwwctl.Bundler.Remote
import Mathlib.Data.List.Nodup

/-!
# What is offered can be fetched

`list_remote` picks the assets that are named after a wallet and this platform, and no others. Such
a name is a plain file name other than `manifest.json`, so the transfer of what is offered stays in
the bundle directory of its wallet.
-/

namespace Hwwctl.Bundler

open FileTree Emulators

/-! ## Names of assets -/

/-- The name of the asset that holds the bundle of a wallet for a platform. -/
def assetNameFor (walletType : WalletType) (platform : String) : String :=
  "hwwctl-" ++ walletDirName walletType ++ "-" ++ platform ++ ".tar.gz"

def wallets : List WalletType := [.trezor, .bitBox02, .coldcard, .specter, .ledger, .jade]

theorem mem_wallets (w : WalletType) : w ∈ wallets := by cases w <;> decide

/-- The wallet whose bundle for `platform` has this name. -/
def walletNamed (platform name : String) : Option WalletType :=
  wallets.find? fun w => name = assetNameFor w platform

theorem assetNameFor_injective {w w' : WalletType} {p p' : String}
    (h : assetNameFor w p = assetNameFor w' p') : w = w' ∧ p = p' := by
  have hrest : walletDirName w ++ "-" ++ p = walletDirName w' ++ "-" ++ p' := by
    have hlists := congrArg String.toList h
    simp only [assetNameFor, String.toList_append, List.append_assoc] at hlists
    have hleft := List.append_cancel_left hlists
    simp only [← List.append_assoc] at hleft
    refine String.toList_injective ?_
    simp only [String.toList_append]
    exact List.append_cancel_right hleft
  exact walletDirName_append_inj hrest

theorem walletNamed_eq_some {platform name : String} {w : WalletType} :
    walletNamed platform name = some w ↔ name = assetNameFor w platform := by
  constructor
  · intro h
    simpa using List.find?_some h
  · rintro rfl
    cases hfind : walletNamed platform (assetNameFor w platform) with
    | none => exact absurd (List.find?_eq_none.1 hfind w (mem_wallets w)) (by simp)
    | some w' =>
      have hname : assetNameFor w platform = assetNameFor w' platform := by
        simpa using List.find?_some hfind
      rw [(assetNameFor_injective hname).1]

theorem parseAssetName_eq_some {name : String} {w : WalletType} {p : String} :
    parseAssetName name = some (w, p) ↔ p ≠ "" ∧ name = assetNameFor w p :=
  parseAssetNameIn_eq_some dirNames_walletPrefixes

/-! ## What a release offers -/

/-- The bundles for a platform among the assets of a release, in their order. -/
def offered (release : GithubRelease) (platform : String) : List RemoteBundle :=
  release.assets.filterMap fun asset =>
    (walletNamed platform asset.name).map fun walletType =>
      { walletType := walletType
        version := release.tagName
        platform := platform
        downloadUrl := asset.browserDownloadUrl
        sizeBytes := asset.size
        assetName := asset.name }

section Offered

variable {release : GithubRelease} {platform : String}

theorem filter_bundleOf (hplatform : platform ≠ "") :
    (release.assets.filterMap (bundleOf release)).filter (·.platform = platform) =
      offered release platform := by
  rw [List.filter_filterMap, offered]
  refine List.filterMap_congr fun asset _ => Option.ext fun b => ?_
  simp only [bundleOf, Option.bind_eq_bind, Option.filter_eq_some_iff, Option.bind_eq_some_iff,
    Option.map_eq_some_iff, Prod.exists, parseAssetName_eq_some, walletNamed_eq_some,
    Option.some.injEq, decide_eq_true_eq]
  constructor
  · rintro ⟨⟨w, p, ⟨_, hname⟩, rfl⟩, rfl⟩
    exact ⟨w, hname, rfl⟩
  · rintro ⟨w, hname, rfl⟩
    exact ⟨⟨w, platform, ⟨hplatform, hname⟩, rfl⟩, rfl⟩

theorem name_of_offered {b : RemoteBundle} (h : b ∈ offered release platform) :
    b.assetName = assetNameFor b.walletType platform := by
  obtain ⟨asset, _, hasset⟩ := List.mem_filterMap.1 h
  obtain ⟨w, hw, rfl⟩ := Option.map_eq_some_iff.1 hasset
  exact walletNamed_eq_some.1 hw

/-- There is one bundle for a wallet as long as no two assets have the same name. -/
theorem offered_nodup (h : (release.assets.map (·.name)).Nodup) :
    ((offered release platform).map (·.walletType)).Nodup := by
  have hwallets : (offered release platform).map (·.walletType) =
      (release.assets.map (·.name)).filterMap (walletNamed platform) := by
    rw [offered, List.map_filterMap, List.filterMap_map]
    refine List.filterMap_congr fun asset _ => ?_
    simp [Option.map_map, Function.comp_def]
  rw [hwallets]
  refine h.filterMap fun name name' w hw hw' => ?_
  rw [walletNamed_eq_some.1 hw, walletNamed_eq_some.1 hw']

end Offered

/-! ## Names of files -/

theorem osString_append (s t : String) : osString (s ++ t) = osString s ++ osString t := by
  simp [osString, String.toByteArray_append]

theorem components_of_fileName {name : OsString} (hslash : slash ∉ name) (hne : name ≠ [])
    (hdot : name ≠ [dot]) (hdots : name ≠ [dot, dot]) : components name = [.normal name] := by
  have hsplit : name.splitOn slash = [name] := by
    rw [List.splitOn_eq_splitOnP]
    refine List.splitOnP_eq_singleton fun c hc => ?_
    exact beq_eq_false_iff_ne.2 fun heq => hslash (heq ▸ hc)
  have hhead : name.head? ≠ some slash := fun h => hslash (List.mem_of_mem_head? h)
  simp [components, hsplit, component, hne, hdot, hdots, hhead]

theorem osString_assetNameFor (w : WalletType) (p : String) :
    osString (assetNameFor w p) =
      osString ("hwwctl-" ++ walletDirName w ++ "-") ++ osString p ++ osString ".tar.gz" := by
  rw [assetNameFor, osString_append, osString_append]

theorem slash_not_mem_assetNameFor {w : WalletType} {p : String} (hp : slash ∉ osString p) :
    slash ∉ osString (assetNameFor w p) := by
  have hfront : slash ∉ osString ("hwwctl-" ++ walletDirName w ++ "-") := by cases w <;> decide
  have hback : slash ∉ osString ".tar.gz" := by decide
  simp only [osString_assetNameFor, List.mem_append, hfront, hp, hback, or_self, not_false_eq_true]

/-- An asset for a wallet is longer than the special names and begins unlike the manifest. -/
theorem osString_assetNameFor_ne (w : WalletType) (p : String) {s : OsString}
    (hs : s.head? ≠ some 104) : osString (assetNameFor w p) ≠ s := by
  have hhead : (osString ("hwwctl-" ++ walletDirName w ++ "-")).head? = some 104 := by
    cases w <;> rfl
  rintro rfl
  rw [osString_assetNameFor, List.append_assoc, List.head?_append, hhead] at hs
  exact hs rfl

theorem namesFile_of_offered {release : GithubRelease} {platform : String} {b : RemoteBundle}
    (hplatform : slash ∉ osString platform) (h : b ∈ offered release platform) :
    NamesFile b ∧ osString b.assetName ≠ osString "manifest.json" := by
  rw [NamesFile, name_of_offered h]
  refine ⟨?_, osString_assetNameFor_ne _ _ (by decide)⟩
  exact components_of_fileName (slash_not_mem_assetNameFor hplatform)
    (osString_assetNameFor_ne _ _ (by decide)) (osString_assetNameFor_ne _ _ (by decide))
    (osString_assetNameFor_ne _ _ (by decide))

/-! ## The platform -/

theorem currentPlatform_eq (os arch : String) : currentPlatform os arch = os ++ "-" ++ arch := rfl

theorem currentPlatform_ne_empty (os arch : String) : currentPlatform os arch ≠ "" := by
  intro h
  have hlength := congrArg (fun s => s.toList.length) h
  simp [currentPlatform_eq] at hlength

theorem slash_not_mem_currentPlatform {os arch : String} (hos : slash ∉ osString os)
    (harch : slash ∉ osString arch) : slash ∉ osString (currentPlatform os arch) := by
  have hhyphen : slash ∉ osString "-" := by decide
  simp only [currentPlatform_eq, osString_append, List.mem_append, hos, harch, hhyphen, or_self,
    not_false_eq_true]

/-! ## The request -/

section Request

variable {get : String → Option ApiResponse} {repo : String} {response : ApiResponse}

theorem fetchAvailable_ok_iff {bundles : List RemoteBundle} :
    fetchAvailable get repo = .ok bundles ↔
      ∃ response release, get (releaseUrl repo) = some response ∧ response.isSuccess = true ∧
        response.json = some release ∧ bundles = release.assets.filterMap (bundleOf release) := by
  unfold fetchAvailable
  constructor
  · intro h
    cases hget : get (releaseUrl repo) with
    | none => simp [hget] at h
    | some response =>
      simp only [hget] at h
      split_ifs at h with hforbidden hsuccess
      cases hjson : response.json with
      | none => simp [hjson] at h
      | some release =>
        simp only [hjson, Except.ok.injEq] at h
        exact ⟨response, release, rfl, hsuccess, hjson, h.symm⟩
  · rintro ⟨response, release, hget, hsuccess, hjson, rfl⟩
    have hcode : response.code ≠ forbidden := by
      intro hforbidden
      simp [ApiResponse.isSuccess, hforbidden, forbidden] at hsuccess
    simp [hget, hcode, hsuccess, hjson]

theorem list_remote_exact (get : String → Option ApiResponse) (repo os arch : String)
    (hos : slash ∉ osString os) (harch : slash ∉ osString arch) :
    (∀ bundles, listRemote get repo os arch = .ok bundles ↔
      ∃ response release, get (releaseUrl repo) = some response ∧ response.isSuccess = true ∧
        response.json = some release ∧
        bundles = offered release (currentPlatform os arch)) ∧
    ∀ release,
      ((release.assets.map (·.name)).Nodup →
        ((offered release (currentPlatform os arch)).map (·.walletType)).Nodup) ∧
      ∀ b ∈ offered release (currentPlatform os arch), ∀ storage : BundleStorage,
        archivePathOf storage b =
            storage.bundleDir b.walletType ++
              [.normal (osString (assetNameFor b.walletType (currentPlatform os arch)))] ∧
          archivePathOf storage b ≠ storage.manifestPath b.walletType := by
  refine ⟨?_, ?_⟩
  · intro bundles
    constructor
    · intro h
      cases hall : fetchAvailable get repo with
      | error e =>
        rw [listRemote, hall] at h
        cases h
      | ok all =>
        obtain ⟨response, release, hget, hsuccess, hjson, rfl⟩ := fetchAvailable_ok_iff.1 hall
        rw [listRemote, hall] at h
        refine ⟨response, release, hget, hsuccess, hjson, ?_⟩
        rw [← filter_bundleOf (currentPlatform_ne_empty os arch)]
        exact (Except.ok.inj h).symm
    · rintro ⟨response, release, hget, hsuccess, hjson, rfl⟩
      have hall := fetchAvailable_ok_iff.2 ⟨response, release, hget, hsuccess, hjson, rfl⟩
      rw [listRemote, hall, ← filter_bundleOf (currentPlatform_ne_empty os arch)]
      rfl
  · intro release
    refine ⟨offered_nodup, ?_⟩
    intro b hb storage
    have hplatform := slash_not_mem_currentPlatform hos harch
    obtain ⟨hname, hmanifest⟩ := namesFile_of_offered hplatform hb
    rw [archivePathOf_eq hname, name_of_offered hb]
    refine ⟨rfl, ?_⟩
    intro heq
    rw [BundleStorage.manifestPath] at heq
    have hlast := List.append_cancel_left heq
    rw [name_of_offered hb] at hmanifest
    exact hmanifest (by simpa using hlast)

end Request

/-- A release with a bundle for each of two platforms and a file that is none. -/
def someRelease : GithubRelease where
  tagName := "v2"
  assets :=
    [⟨"checksums.txt", "https://example/1", 9⟩,
      ⟨"hwwctl-trezor-macos-aarch64.tar.gz", "https://example/2", 20⟩,
      ⟨"hwwctl-trezor-linux-x86_64.tar.gz", "https://example/3", 21⟩]

theorem list_remote_exact_linux :
    ∃ b, listRemote (fun _ => some ⟨200, "200 OK", some "", some someRelease⟩) "owner/repo" "linux"
        "x86_64" = .ok [b] ∧
      b.walletType = .trezor ∧ b.downloadUrl = "https://example/3" := by
  refine ⟨⟨.trezor, "v2", "linux-x86_64", "https://example/3", 21,
    "hwwctl-trezor-linux-x86_64.tar.gz"⟩, ?_, rfl, rfl⟩
  have hexact := list_remote_exact
    (fun _ => some ⟨200, "200 OK", some "", some someRelease⟩) "owner/repo" "linux" "x86_64"
    (by decide) (by decide)
  exact (hexact.1 _).2 ⟨_, someRelease, rfl, rfl, rfl, rfl⟩

end Hwwctl.Bundler
