import Hwwctl.Bundler.Proofs.SuccessProofs
import Mathlib.Data.List.Pairwise

/-!
# The statuses of a download

The percentages are those of a counter that only grows, so they never fall. Behind them comes one
status more, that of the result, as soon as there is a bundle directory.
-/

namespace Hwwctl.Bundler

open FileTree Io Emulators

/-! ## Percentages -/

theorem toNat_cap (n : UInt64) : (min n 100).toUInt8.toNat = min n.toNat 100 := by
  have hmin : min n 100 = if n ≤ 100 then n else 100 := rfl
  have hle : n ≤ 100 ↔ n.toNat ≤ 100 := UInt64.le_iff_toNat_le
  rw [hmin]
  split_ifs with h
  · rw [UInt64.toNat_toUInt8, Nat.min_eq_left (hle.mp h), Nat.mod_eq_of_lt]
    exact Nat.lt_of_le_of_lt (hle.mp h) (by decide)
  · rw [Nat.min_eq_right (Nat.le_of_not_le fun hn => h (hle.mpr hn))]
    rfl

theorem progressPct_le (totalBytes : Option UInt64) (downloaded : UInt64) :
    progressPct totalBytes downloaded ≤ 100 := by
  rw [UInt8.le_iff_toNat_le]
  show _ ≤ 100
  unfold progressPct
  split
  · split_ifs
    · rw [toNat_cap]
      exact Nat.min_le_right _ _
    · exact Nat.zero_le _
  · exact Nat.zero_le _

theorem progressPct_mono {totalBytes : Option UInt64} {a b : UInt64} (h : a.toNat ≤ b.toNat)
    (hb : b.toNat * 100 < 2 ^ 64) : progressPct totalBytes a ≤ progressPct totalBytes b := by
  have hscaled : ∀ n : UInt64, n.toNat ≤ b.toNat → (n * 100).toNat = n.toNat * 100 := by
    intro n hn
    rw [UInt64.toNat_mul]
    exact Nat.mod_eq_of_lt (show n.toNat * 100 < 2 ^ 64 by omega)
  rw [UInt8.le_iff_toNat_le]
  unfold progressPct
  cases totalBytes with
  | none => exact Nat.le_refl _
  | some total =>
    dsimp only
    split_ifs
    · rw [toNat_cap, toNat_cap, UInt64.toNat_div, UInt64.toNat_div, hscaled a h, hscaled b (by omega)]
      have hdiv : a.toNat * 100 / total.toNat ≤ b.toNat * 100 / total.toNat :=
        Nat.div_le_div_right (by omega)
      omega
    · exact Nat.le_refl _

theorem toNat_add_ofNat (a : UInt64) (n : Nat) (h : a.toNat + n < 2 ^ 64) :
    (a + .ofNat n).toNat = a.toNat + n := by
  have hn : (UInt64.ofNat n).toNat = n := UInt64.toNat_ofNat_of_lt' (show n < 2 ^ 64 by omega)
  rw [UInt64.toNat_add, hn]
  exact Nat.mod_eq_of_lt h

/-! ## What is sent -/

section Sent

variable {s s' : Session} {r : Except String Unit}

theorem onDisk_sent {ε α : Type} {x : Act ε Disk α} {r : Except ε α}
    (h : onDisk x s = (r, s')) : s'.sent = s.sent := by
  obtain ⟨disk, -, rfl⟩ := onDisk_cases h
  rfl

/-- The percentages of a transfer go up from what it starts with. -/
def Ascending (low : UInt8) (pcts : List UInt8) : Prop :=
  pcts.Pairwise (· ≤ ·) ∧ ∀ p ∈ pcts, low ≤ p ∧ p ≤ 100

/-- All is there at last. -/
theorem Ascending.concat {pcts : List UInt8} (h : Ascending 0 pcts) : Ascending 0 (pcts ++ [100]) := by
  constructor
  · refine List.pairwise_append.mpr ⟨h.1, List.pairwise_singleton _ _, fun p hp q hq => ?_⟩
    rw [List.mem_singleton.mp hq]
    exact (h.2 p hp).2
  · intro p hp
    rcases List.mem_append.mp hp with hp | hp
    · exact h.2 p hp
    · rw [List.mem_singleton.mp hp]
      exact ⟨UInt8.zero_le, UInt8.le_refl _⟩

theorem receive_sent {totalBytes : Option UInt64} {file : FsLoc} {downloaded : UInt64}
    {stream : List (Option Chunk)}
    (hbound : (downloaded.toNat + (body stream).length) * 100 < 2 ^ 64)
    (h : receive totalBytes file downloaded stream s = (r, s')) :
    ∃ pcts, s'.sent = s.sent ++ pcts.map .downloading ∧
      Ascending (progressPct totalBytes downloaded) pcts := by
  have hnothing : ∀ low, Ascending low [] := fun low => ⟨.nil, nofun⟩
  induction stream generalizing downloaded s with
  | nil =>
    cases h
    exact ⟨[], by simp, hnothing _⟩
  | cons item stream ih =>
    cases item with
    | none =>
      cases h
      exact ⟨[], by simp, hnothing _⟩
    | some chunk =>
      have hbody : (body (some chunk :: stream)).length =
          chunk.bytes.length + (body stream).length := List.length_append
      rw [hbody] at hbound
      rcases Act.bind_cases h with ⟨e, hsave, -⟩ | ⟨_, s₁, hsave, hrest⟩
      · obtain ⟨_, hwrite⟩ := Act.context_error hsave
        exact ⟨[], by simp [onDisk_sent hwrite], hnothing _⟩
      · have hsent := onDisk_sent (Act.context_ok hsave)
        rcases Act.bind_cases hrest with ⟨e, hsend, -⟩ | ⟨_, s₂, hsend, hrest⟩
        · cases hsend
        · cases hsend
          have hcount := toNat_add_ofNat downloaded chunk.bytes.length (by omega)
          have hnext : ((downloaded + .ofNat chunk.bytes.length).toNat + (body stream).length) * 100 <
              2 ^ 64 := by
            rw [hcount]
            omega
          obtain ⟨pcts, hpcts, hsorted, hrange⟩ := ih hnext hrest
          have hmono : progressPct totalBytes downloaded ≤
              progressPct totalBytes (downloaded + .ofNat chunk.bytes.length) :=
            progressPct_mono (by omega) (by omega)
          have hle := progressPct_le totalBytes (downloaded + .ofNat chunk.bytes.length)
          have hsent' : s'.sent = s.sent ++
              (progressPct totalBytes (downloaded + .ofNat chunk.bytes.length) :: pcts).map
                .downloading := by
            rw [hpcts, hsent, List.map_cons]
            exact List.append_assoc _ [_] _
          exact ⟨_, hsent', List.pairwise_cons.mpr ⟨fun p hp => (hrange p hp).1, hsorted⟩,
            List.forall_mem_cons.mpr ⟨⟨hmono, hle⟩, fun p hp =>
              ⟨UInt8.le_trans hmono (hrange p hp).1, (hrange p hp).2⟩⟩⟩

/-- Nothing but percentages is sent during a transfer. -/
theorem downloadAsset_sent {env : TransferEnv} {dest : FilePath}
    (hbound : ∀ response, env.response = some response →
      (body response.stream).length * 100 < 2 ^ 64)
    (h : downloadAsset env dest s = (r, s')) :
    ∃ pcts, s'.sent = s.sent ++ pcts.map .downloading ∧ Ascending 0 pcts := by
  have hnothing : Ascending 0 [] := ⟨.nil, nofun⟩
  cases hresponse : env.response with
  | none =>
    rw [downloadAsset, hresponse] at h
    cases h
    exact ⟨[], by simp, hnothing⟩
  | some response =>
    rw [downloadAsset, hresponse] at h
    dsimp only at h
    split_ifs at h
    · rcases Act.bind_cases h with ⟨e, hcreate, -⟩ | ⟨file, s₁, hcreate, hrest⟩
      · obtain ⟨_, hcreate⟩ := Act.context_error hcreate
        exact ⟨[], by simp [onDisk_sent hcreate], hnothing⟩
      · have hsent := onDisk_sent (Act.context_ok hcreate)
        have hstart : ((0 : UInt64).toNat + (body response.stream).length) * 100 < 2 ^ 64 := by
          rw [UInt64.toNat_zero, Nat.zero_add]
          exact hbound response hresponse
        have hreceive : ∀ {r s₂}, receive response.contentLength file 0 response.stream s₁ = (r, s₂) →
            ∃ pcts, s₂.sent = s.sent ++ pcts.map .downloading ∧ Ascending 0 pcts := by
          intro r s₂ hrun
          obtain ⟨pcts, hpcts, hsorted, hrange⟩ := receive_sent hstart hrun
          exact ⟨pcts, by rw [hpcts, hsent], hsorted, fun p hp => ⟨UInt8.zero_le, (hrange p hp).2⟩⟩
        rcases Act.bind_cases hrest with ⟨e, hrun, -⟩ | ⟨_, s₂, hrun, hmove⟩
        · exact hreceive hrun
        · have hmoved : s'.sent = s₂.sent := by
            split_ifs at hmove
            · cases r with
              | ok _ => exact onDisk_sent (Act.context_ok hmove)
              | error _ =>
                obtain ⟨_, hmove⟩ := Act.context_error hmove
                exact onDisk_sent hmove
            · cases hmove
              rfl
          rw [hmoved]
          exact hreceive hrun
    · cases h
      exact ⟨[], by simp, hnothing⟩

/-- The last status of a run with this result. -/
def Final (r : Except String Unit) (last : BundleStatus) : Prop :=
  match r with
  | .ok () => ∃ version sizeBytes, last = .installed version sizeBytes
  | .error _ => ∃ e, last = .failed e

variable {env : DownloadEnv} {storage : BundleStorage} {bundle : RemoteBundle}

theorem giveUp_sent {context msg : String} (h : giveUp env storage bundle context msg s = (r, s')) :
    ∃ last, s'.sent = s.sent ++ [last] ∧ Final r last := by
  cases h
  exact ⟨.failed msg, rfl, msg, rfl⟩

theorem registerBundle_sent (h : registerBundle env storage bundle s = (r, s')) :
    ∃ last, s'.sent = s.sent ++ [last] ∧ Final r last := by
  rcases Act.bind_cases h with ⟨e, hwrite, rfl⟩ | ⟨_, s₁, hwrite, hsend⟩
  · rcases Act.handle_cases hwrite with ⟨_, _, hok⟩ | ⟨msg, s₁, hrefused, hgive⟩
    · cases hok
    · cases hgive
      exact ⟨.failed msg, by rw [← onDisk_sent hrefused], msg, rfl⟩
  · cases hsend
    rcases Act.handle_cases hwrite with ⟨_, hwritten, _⟩ | ⟨msg, _, _, hgive⟩
    · exact ⟨_, by rw [← onDisk_sent hwritten], _, _, rfl⟩
    · cases hgive

/-- Behind a transfer that has succeeded: all bytes are there, and the rest fails or does not. -/
theorem extraction_sent
    (h : (do
      send (.downloading 100)
      (onDisk (extractTarball env.extract (archivePathOf storage bundle)
        (storage.bundleDir bundle.walletType))).handle
        (giveUp env storage bundle "bundle extraction failed")
      removeArchive env storage bundle
      registerBundle env storage bundle : Downloading Unit) s = (r, s')) :
    ∃ last, s'.sent = s.sent ++ [.downloading 100, last] ∧ Final r last := by
  have hlater : ∀ {s₁ : Session} {last : BundleStatus}, s₁.sent = s.sent ++ [.downloading 100] →
      s'.sent = s₁.sent ++ [last] → s'.sent = s.sent ++ [.downloading 100, last] := by
    intro s₁ last hfirst hlast
    rw [hlast, hfirst, List.append_assoc]
    rfl
  rcases Act.bind_cases h with ⟨e, hsend, -⟩ | ⟨_, s₁, hsend, hrest⟩
  · cases hsend
  cases hsend
  rcases Act.bind_cases hrest with ⟨e, hextract, rfl⟩ | ⟨_, s₂, hextract, hrest⟩
  · rcases Act.handle_cases hextract with ⟨_, _, hok⟩ | ⟨msg, s₂, hextract, hgive⟩
    · cases hok
    · obtain ⟨last, hlast, hfinal⟩ := giveUp_sent hgive
      exact ⟨last, hlater (onDisk_sent hextract) hlast, hfinal⟩
  rcases Act.handle_cases hextract with ⟨_, hextract, _⟩ | ⟨_, _, _, hgive⟩
  swap
  · exact absurd rfl (giveUp_disk hgive).1
  rcases Act.bind_cases hrest with ⟨e, hremove, -⟩ | ⟨_, s₃, hremove, hrest⟩
  · cases hremove
  cases hremove
  obtain ⟨last, hlast, hfinal⟩ := registerBundle_sent hrest
  exact ⟨last, hlater (onDisk_sent hextract) hlast, hfinal⟩

/-! ## The stream -/

/-- Percentages that never fall, and then one status more, which is that of the result. -/
def StatusStream (sent : List BundleStatus) (r : Except String Unit) : Prop :=
  ∃ pcts last, sent = pcts.map .downloading ++ [last] ∧ Ascending 0 pcts ∧ Final r last

theorem download_stream_iff (env : DownloadEnv) (storage : BundleStorage) (bundle : RemoteBundle)
    (disk : Disk) (hbound : ∀ response, env.transfer.response = some response →
      (body response.stream).length * 100 < 2 ^ 64) :
    StatusStream (download env storage bundle ⟨disk, []⟩).2.sent
        (download env storage bundle ⟨disk, []⟩).1 ↔
      (createDirAll env.grants (storage.bundleDir bundle.walletType) disk).1 = .ok () := by
  cases hrun : download env storage bundle ⟨disk, []⟩ with
  | mk r s' =>
    rcases Act.bind_cases hrun with ⟨e, hcreate, rfl⟩ | ⟨_, s₀, hcreate, h⟩
    · -- Not even a failure is reported.
      obtain ⟨_, hcreate⟩ := Act.context_error hcreate
      have hsent : s'.sent = [] := onDisk_sent hcreate
      obtain ⟨disk', hrefused, -⟩ := onDisk_cases hcreate
      constructor
      · rintro ⟨pcts, last, hstream, -⟩
        rw [hsent] at hstream
        exact absurd hstream.symm (by simp)
      · intro hok
        have hok' : (createDirAll env.grants (storage.bundleDir bundle.walletType) disk).1 =
            .ok () := hok
        rw [hrefused] at hok'
        cases hok'
    · have hsent : s₀.sent = [] := onDisk_sent (Act.context_ok hcreate)
      obtain ⟨disk₀, hmade, -⟩ := onDisk_cases (Act.context_ok hcreate)
      have hmade' : createDirAll env.grants (storage.bundleDir bundle.walletType) disk =
          (.ok (), disk₀) := hmade
      refine iff_of_true ?_ (by rw [hmade'])
      rcases Act.bind_cases h with ⟨e, hasset, rfl⟩ | ⟨_, s₁, hasset, h⟩
      · rcases Act.handle_cases hasset with ⟨_, _, hok⟩ | ⟨msg, s₁, hfailed, hgive⟩
        · cases hok
        · obtain ⟨pcts, hpcts, hascending⟩ := downloadAsset_sent hbound hfailed
          obtain ⟨last, hlast, hfinal⟩ := giveUp_sent hgive
          refine ⟨pcts, last, ?_, hascending, hfinal⟩
          show s'.sent = _
          rw [hlast, hpcts, hsent, List.nil_append]
      · rcases Act.handle_cases hasset with ⟨_, hfetched, _⟩ | ⟨_, _, _, hgive⟩
        swap
        · exact absurd rfl (giveUp_disk hgive).1
        obtain ⟨pcts, hpcts, hascending⟩ := downloadAsset_sent hbound hfetched
        obtain ⟨last, hlast, hfinal⟩ := extraction_sent h
        refine ⟨pcts ++ [100], last, ?_, hascending.concat, hfinal⟩
        show s'.sent = _
        rw [hlast, hpcts, hsent, List.nil_append, List.map_append, List.append_assoc]
        rfl

theorem download_stream_cutOff :
    StatusStream (attempt cutOff).2.sent (attempt cutOff).1 ↔
      (createDirAll (answering cutOff).grants (trezorStorage.bundleDir .trezor)
        ⟨trezorInstalled, []⟩).1 = .ok () :=
  download_stream_iff (answering cutOff) trezorStorage trezorBundle ⟨trezorInstalled, []⟩ (by
    rintro response ⟨⟩
    decide)

/-- The system refuses to make the bundle directory. -/
def readOnly : DownloadEnv := { answering cutOff with grants := fun _ => false }

theorem download_readOnly_silent :
    isDir nothingInstalled.disk.tree trezorStorage.baseDir = true ∧
    (download readOnly trezorStorage trezorBundle nothingInstalled).1.isOk = false ∧
    ¬ StatusStream (download readOnly trezorStorage trezorBundle nothingInstalled).2.sent
      (download readOnly trezorStorage trezorBundle nothingInstalled).1 := by
  refine ⟨by decide +kernel, by decide +kernel, ?_⟩
  rintro ⟨pcts, last, hstream, -⟩
  have hsilent : (download readOnly trezorStorage trezorBundle nothingInstalled).2.sent = [] := by
    decide +kernel
  rw [hsilent] at hstream
  exact absurd hstream.symm (by simp)

end Sent

end Hwwctl.Bundler
