import Hwwctl.Bundler.AssetName

/-!
# Asset names parse exactly

The name of a wallet has no hyphen in it, so the first one of what is left tells where the platform
begins: no entry of the table can shadow another, in whatever order they are tried.
-/

namespace Hwwctl.Bundler

open Emulators

theorem stripPrefix_eq_some {s lead r : String} : stripPrefix s lead = some r ↔ s = lead ++ r := by
  unfold stripPrefix
  rw [Option.map_eq_some_iff]
  constructor
  · rintro ⟨cs, hcs, rfl⟩
    obtain ⟨lead', hs, hlead⟩ := List.dropPrefix?_eq_some_iff.mp hcs
    refine String.toList_injective ?_
    rw [hs, beq_iff_eq.mp hlead, String.toList_append, String.toList_ofList]
  · rintro rfl
    refine ⟨r.toList, List.dropPrefix?_eq_some_iff.mpr ⟨lead.toList, ?_, beq_self_eq_true _⟩, ?_⟩
    · rw [String.toList_append]
    · rw [String.ofList_toList]

theorem stripSuffix_eq_some {s ending r : String} :
    stripSuffix s ending = some r ↔ s = r ++ ending := by
  unfold stripSuffix
  rw [Option.map_eq_some_iff]
  constructor
  · rintro ⟨cs, hcs, rfl⟩
    obtain ⟨ending', hs, hending⟩ := List.dropSuffix?_eq_some_iff.mp hcs
    refine String.toList_injective ?_
    rw [hs, beq_iff_eq.mp hending, String.toList_append, String.toList_ofList]
  · rintro rfl
    refine ⟨r.toList, List.dropSuffix?_eq_some_iff.mpr ⟨ending.toList, ?_, beq_self_eq_true _⟩, ?_⟩
    · rw [String.toList_append]
    · rw [String.ofList_toList]

theorem matchWallet_eq_some {rest : String} {entry : String × WalletType} {w : WalletType}
    {p : String} :
    matchWallet rest entry = some (w, p) ↔ entry.2 = w ∧ p ≠ "" ∧ rest = entry.1 ++ "-" ++ p := by
  simp only [matchWallet, Option.bind_eq_bind, Option.bind_eq_some_iff, stripPrefix_eq_some]
  constructor
  · rintro ⟨platform, rfl, platform', rfl, h⟩
    split_ifs at h with hne
    cases h
    exact ⟨rfl, hne, by rw [String.append_assoc]⟩
  · rintro ⟨hw, hne, rfl⟩
    exact ⟨"-" ++ p, String.append_assoc, p, rfl, by rw [if_neg hne, hw]⟩

/-- Where a separator comes first, the parts before and behind it can be told apart. -/
theorem append_cons_inj {α : Type} {c : α} {xs ys as bs : List α} (hxs : ∀ x ∈ xs, x ≠ c)
    (hys : ∀ y ∈ ys, y ≠ c) (h : xs ++ c :: as = ys ++ c :: bs) : xs = ys ∧ as = bs := by
  induction xs generalizing ys with
  | nil =>
    cases ys with
    | nil => exact ⟨rfl, (List.cons.inj h).2⟩
    | cons y ys => exact absurd (List.cons.inj h).1.symm (hys y List.mem_cons_self)
  | cons x xs ih =>
    cases ys with
    | nil => exact absurd (List.cons.inj h).1 (hxs x List.mem_cons_self)
    | cons y ys =>
      obtain ⟨rfl, hrest⟩ := List.cons.inj h
      obtain ⟨rfl, rfl⟩ := ih (fun z hz => hxs z (List.mem_cons_of_mem x hz))
        (fun z hz => hys z (List.mem_cons_of_mem x hz)) hrest
      exact ⟨rfl, rfl⟩

theorem walletDirName_no_hyphen (w : WalletType) : ∀ c ∈ (walletDirName w).toList, c ≠ '-' := by
  have hall : (walletDirName w).toList.all (· ≠ '-') = true := by cases w <;> decide
  intro c hc
  simpa using List.all_eq_true.1 hall c hc

theorem walletDirName_injective : Function.Injective walletDirName := by
  intro w w' h
  cases w <;> cases w' <;> first | rfl | exact absurd h (by decide)

/-- The wallet and the platform of what is left of a name. -/
theorem walletDirName_append_inj {w w' : WalletType} {p p' : String}
    (h : walletDirName w ++ "-" ++ p = walletDirName w' ++ "-" ++ p') : w = w' ∧ p = p' := by
  have hlists := congrArg String.toList h
  simp only [String.toList_append, List.append_assoc] at hlists
  obtain ⟨hw, hp⟩ := append_cons_inj (walletDirName_no_hyphen w) (walletDirName_no_hyphen w') hlists
  exact ⟨walletDirName_injective (String.toList_injective hw), String.toList_injective hp⟩

/-- The names of a table of prefixes are those of the directories, and none is missing. -/
structure DirNames (table : List (String × WalletType)) : Prop where
  name : ∀ entry ∈ table, entry.1 = walletDirName entry.2
  total : ∀ w, (walletDirName w, w) ∈ table

theorem dirNames_walletPrefixes : DirNames walletPrefixes where
  name := by decide
  total w := by cases w <;> decide

theorem findSome_matchWallet {table : List (String × WalletType)} (h : DirNames table)
    {rest : String} {w : WalletType} {p : String} :
    table.findSome? (matchWallet rest) = some (w, p) ↔
      p ≠ "" ∧ rest = walletDirName w ++ "-" ++ p := by
  constructor
  · intro hfind
    obtain ⟨entry, hentry, hmatch⟩ := List.exists_of_findSome?_eq_some hfind
    obtain ⟨rfl, hp, hrest⟩ := matchWallet_eq_some.mp hmatch
    exact ⟨hp, by rw [hrest, h.name entry hentry]⟩
  · rintro ⟨hp, rfl⟩
    -- Some entry matches, and whichever is found first says the same.
    have hself : matchWallet (walletDirName w ++ "-" ++ p) (walletDirName w, w) = some (w, p) :=
      matchWallet_eq_some.mpr ⟨rfl, hp, rfl⟩
    cases hfind : table.findSome? (matchWallet (walletDirName w ++ "-" ++ p)) with
    | none => exact absurd hself (by rw [List.findSome?_eq_none_iff.mp hfind _ (h.total w)]; nofun)
    | some found =>
      obtain ⟨entry, hentry, hmatch⟩ := List.exists_of_findSome?_eq_some hfind
      obtain ⟨w', p'⟩ := found
      obtain ⟨rfl, -, hrest⟩ := matchWallet_eq_some.mp hmatch
      rw [h.name entry hentry] at hrest
      obtain ⟨rfl, rfl⟩ := walletDirName_append_inj hrest
      rfl

theorem parseAssetNameIn_eq_some {table : List (String × WalletType)} (h : DirNames table)
    {name : String} {w : WalletType} {p : String} :
    parseAssetNameIn table name = some (w, p) ↔
      p ≠ "" ∧ name = "hwwctl-" ++ walletDirName w ++ "-" ++ p ++ ".tar.gz" := by
  simp only [parseAssetNameIn, Option.bind_eq_bind, Option.bind_eq_some_iff, stripPrefix_eq_some,
    stripSuffix_eq_some, findSome_matchWallet h]
  constructor
  · rintro ⟨stem, rfl, rest, rfl, hp, rfl⟩
    exact ⟨hp, by simp only [String.append_assoc]⟩
  · rintro ⟨hp, rfl⟩
    exact ⟨_, rfl, walletDirName w ++ "-" ++ p, by simp only [String.append_assoc], hp, rfl⟩

/-- The order of the table makes no difference. -/
theorem parseAssetNameIn_perm {table table' : List (String × WalletType)} (h : DirNames table)
    (h' : DirNames table') (name : String) :
    parseAssetNameIn table name = parseAssetNameIn table' name := by
  refine Option.ext fun (w, p) => ?_
  rw [parseAssetNameIn_eq_some h, parseAssetNameIn_eq_some h']

theorem DirNames.of_perm {table table' : List (String × WalletType)} (h : DirNames table)
    (hperm : table'.Perm table) : DirNames table' where
  name entry hentry := h.name entry (hperm.mem_iff.mp hentry)
  total w := hperm.mem_iff.mpr (h.total w)

theorem parse_asset_name_exact (name : String) (w : WalletType) (p : String) :
    (parseAssetName name = some (w, p) ↔
      p ≠ "" ∧ name = "hwwctl-" ++ walletDirName w ++ "-" ++ p ++ ".tar.gz") ∧
    (∀ w' p', "hwwctl-" ++ walletDirName w ++ "-" ++ p ++ ".tar.gz" =
      "hwwctl-" ++ walletDirName w' ++ "-" ++ p' ++ ".tar.gz" → w = w' ∧ p = p') ∧
    ∀ table, table.Perm walletPrefixes → parseAssetNameIn table name = parseAssetName name := by
  refine ⟨parseAssetNameIn_eq_some dirNames_walletPrefixes, ?_, ?_⟩
  · intro w' p' h
    have hrest : walletDirName w ++ "-" ++ p = walletDirName w' ++ "-" ++ p' := by
      have hlists := congrArg String.toList h
      simp only [String.toList_append, List.append_assoc] at hlists
      refine String.toList_injective ?_
      simp only [String.toList_append]
      have hleft := List.append_cancel_left hlists
      simp only [← List.append_assoc] at hleft
      exact List.append_cancel_right hleft
    exact walletDirName_append_inj hrest
  · intro table hperm
    exact parseAssetNameIn_perm (dirNames_walletPrefixes.of_perm hperm) dirNames_walletPrefixes name

end Hwwctl.Bundler
