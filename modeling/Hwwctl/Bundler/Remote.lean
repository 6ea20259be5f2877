import Hwwctl.Bundler.AssetName
import Hwwctl.Bundler.Download
import Hwwctl.Library.Lines

/-!
# What the latest release offers

`fetch_available` of `GithubDownloader` and `list_remote` of `BundleManager`. The server's answer to
a request, and what `response.json()` makes of its body, are given.
-/

namespace Hwwctl.Bundler

structure GithubAsset where
  name : String
  browserDownloadUrl : String
  size : UInt64

structure GithubRelease where
  tagName : String
  assets : List GithubAsset

structure ApiResponse where
  code : Nat
  /-- The status as it is displayed. -/
  status : String
  /-- `none` when the body cannot be read, or is not such a release. -/
  text : Option String
  json : Option GithubRelease

/-- `StatusCode::is_success`. -/
def ApiResponse.isSuccess (response : ApiResponse) : Bool :=
  200 ≤ response.code ∧ response.code < 300

def forbidden : Nat := 403

/-- The first of `str::lines`. -/
def firstLine (s : String) : Option String :=
  if s = "" then none
  else
    match Lines.next '\n' s.toList with
    | none => some s
    | some (line, _) =>
      some (String.ofList (if line.getLast? = some '\r' then line.dropLast else line))

/-- The first line of the body. -/
def ApiResponse.message (response : ApiResponse) : String :=
  (firstLine (response.text.getD "")).getD "(no message)"

def releaseUrl (repo : String) : String :=
  s!"https://api.github.com/repos/{repo}/releases/latest"

/-- The closure of the `filter_map`. -/
def bundleOf (release : GithubRelease) (asset : GithubAsset) : Option RemoteBundle := do
  let (walletType, platform) ← parseAssetName asset.name
  some
    { walletType := walletType
      version := release.tagName
      platform := platform
      downloadUrl := asset.browserDownloadUrl
      sizeBytes := asset.size
      assetName := asset.name }

/-- `get` is how the server answers; `none` when the request cannot be sent. -/
def fetchAvailable (get : String → Option ApiResponse) (repo : String) :
    Except String (List RemoteBundle) :=
  match get (releaseUrl repo) with
  | none => .error "failed to send GitHub API request"
  | some response =>
    if response.code = forbidden then
      .error s!"GitHub API rate limit exceeded (HTTP 403): {response.message}"
    else if response.isSuccess then
      match response.json with
      | none => .error "failed to parse GitHub release JSON"
      | some release => .ok (release.assets.filterMap (bundleOf release))
    else .error s!"GitHub API returned HTTP {response.status}: {response.message}"

/-- `os` and `arch` are the constants of the compile target. -/
def currentPlatform (os arch : String) : String := s!"{os}-{arch}"

def listRemote (get : String → Option ApiResponse) (repo os arch : String) :
    Except String (List RemoteBundle) :=
  let platform := currentPlatform os arch
  (fetchAvailable get repo).map fun all => all.filter (·.platform = platform)

end Hwwctl.Bundler
