import Hwwctl.Protocol.Proofs.LayoutProofs

/-!
# What a screen shows

Lines and buttons are those of all objects that can be reached, in pre-order. The component name is
the last resort for the title of its own object, and not of the screen.
-/

namespace Hwwctl.Protocol

open Serde

variable {value : Value}

theorem mem_reachable {o : Fields} : o ∈ reachable value ↔
    ∃ root, value.asObject = some root ∧
      Relation.ReflTransGen (fun a b => b ∈ childObjects a) root o := by
  rw [reachable]
  cases hroot : value.asObject with
  | none => simp
  | some root =>
    rw [screen.mem_preorder_iff]
    constructor
    · exact fun h => ⟨root, rfl, h⟩
    · rintro ⟨_, heq, h⟩
      cases heq
      exact h

/-- An empty text is no JSON. -/
theorem parseLayoutTokens_eq {fromStr : String → Option Value} {tokens : List String}
    (hempty : fromStr "" = none) (h : fromStr (String.join tokens) = some value) :
    parseLayoutTokens fromStr tokens = extractFromValue value {} := by
  have hne : String.join tokens ≠ "" := by
    intro htokens
    rw [htokens, hempty] at h
    cases h
  rw [parseLayoutTokens, if_neg hne, h]

/-- Everything that the objects of a screen say is there, once and in their order. -/
theorem layout_follows_tree (value : Value) (layout : ParsedLayout) :
    (∀ o, o ∈ reachable value ↔ ∃ root, value.asObject = some root ∧
      Relation.ReflTransGen (fun a b => b ∈ childObjects a) root o) ∧
    (extractFromValue value layout).lines =
      layout.lines ++ (reachable value).flatMap ownLines ∧
    (extractFromValue value layout).buttons =
      layout.buttons ++ (reachable value).flatMap ownButtons ∧
    ∀ (fromStr : String → Option Value) (tokens : List String), fromStr "" = none →
      fromStr (String.join tokens) = some value →
      (parseLayoutTokens fromStr tokens).lines = (reachable value).flatMap ownLines ∧
      (parseLayoutTokens fromStr tokens).buttons = (reachable value).flatMap ownButtons := by
  refine ⟨fun _ => mem_reachable, lines_extractFromValue value layout,
    buttons_extractFromValue value layout, fun fromStr tokens hempty h => ?_⟩
  rw [parseLayoutTokens_eq hempty h]
  exact ⟨lines_extractFromValue value {}, buttons_extractFromValue value {}⟩

/-- An object with one text. -/
def textOnly : Fields := [("text", .string "a")]

def frameContent : Fields :=
  [("paragraphs", .array [.array [.string "Send", .number 1, .string "now"], .string "to me"]),
    ("notification", .string "Backup")]

/-- A frame with a content, buttons and a list in which one element is an object. -/
def confirmFrame : Fields :=
  [("component", .string "Frame"), ("content", .object frameContent),
    ("buttons", .object [("left", .string "No"), ("right", .object [("text", .string "Yes")])]),
    ("items", .array [.string "b", .object textOnly])]

theorem reachable_textOnly : reachable (.object textOnly) = [textOnly] := by
  show screen.preorder textOnly = _
  rw [Descent.preorder_eq]
  rfl

theorem reachable_confirmFrame :
    reachable (.object confirmFrame) = [confirmFrame, frameContent, textOnly] := by
  have hcontent : screen.preorder frameContent = [frameContent] := by
    rw [Descent.preorder_eq]
    rfl
  have hitem : screen.preorder textOnly = [textOnly] := reachable_textOnly
  show screen.preorder confirmFrame = _
  rw [Descent.preorder_eq]
  show _ :: List.flatMap screen.preorder [frameContent, textOnly] = _
  rw [List.flatMap_cons, List.flatMap_singleton, hcontent, hitem]
  rfl

/-- A parser that knows one text, given in two tokens; and a screen of three objects. -/
theorem layout_of_text :
    (parseLayoutTokens
      (fun s => if s = "\x7b\"text\":\"a\"\x7d" then some (.object textOnly) else none)
      ["\x7b\"text\":", "\"a\"\x7d"]).lines = ["a"] ∧
    (extractFromValue (.object confirmFrame) {}).lines = ["Send now", "to me", "[Backup]", "a"] ∧
    (extractFromValue (.object confirmFrame) {}).buttons = ["No", "Yes"] := by
  obtain ⟨-, hlines, hbuttons, -⟩ := layout_follows_tree (.object confirmFrame) {}
  refine ⟨?_, ?_, ?_⟩
  · rw [((layout_follows_tree (.object textOnly) {}).2.2.2 _ _ rfl rfl).1, reachable_textOnly]
    decide
  · rw [hlines, reachable_confirmFrame]
    decide
  · rw [hbuttons, reachable_confirmFrame]
    decide

/-! ## The title -/

theorem title_extractFromValue (value : Value) :
    (extractFromValue value {}).title = firstName ((reachable value).flatMap ownNames) := by
  rw [extractFromValue_eq, title_foldl_extractOwn]
  rfl

/-- No object comes to its component name while it has a title or the screen has one. -/
def TitledByComponent (value : Value) : Prop :=
  ∃ before obj after, reachable value = before ++ obj :: after ∧
    (before.foldl (fun layout o => extractOwn o layout) {}).title = "" ∧
    realTitles obj = [] ∧ componentName obj ≠ []

/-- The title is one of the screen's titles, subtitles and labels if it has any, and only otherwise
a component name. -/
def LastResort (value : Value) : Prop :=
  ((∃ o ∈ reachable value, realTitles o ≠ []) →
    (extractFromValue value {}).title ∈ (reachable value).flatMap realTitles) ∧
  (TitledByComponent value → ∀ o ∈ reachable value, realTitles o = [])

/-- The first object that has a title, subtitle, label or component name at all has one of the
former, if any object has. -/
def RealTitleFirst (value : Value) : Prop :=
  ∀ obj, (reachable value).find? (fun o => ownNames o ≠ []) = some obj →
    realTitles obj ≠ [] ∨ ∀ o ∈ reachable value, realTitles o = []

theorem firstName_eq_empty {names : List String} (h : firstName names = "") : nonEmpty names = [] := by
  cases hnames : nonEmpty names with
  | nil => rfl
  | cons x rest =>
    have hx : x ∈ nonEmpty names := hnames ▸ List.mem_cons_self
    rw [firstName, hnames] at h
    exact absurd h (by simpa using (List.mem_filter.mp hx).2)

theorem nonEmpty_ownNames (obj : Fields) : nonEmpty (ownNames obj) = ownNames obj := by
  have hidem : ∀ xs, nonEmpty (nonEmpty xs) = nonEmpty xs := fun xs => by simp [nonEmpty]
  rw [ownNames, nonEmpty_append, realTitles, componentName, texts, texts, hidem, hidem]

theorem nonEmpty_flatMap_ownNames (objs : List Fields) :
    nonEmpty (objs.flatMap ownNames) = objs.flatMap ownNames := by
  induction objs with
  | nil => rfl
  | cons o objs ih => rw [List.flatMap_cons, nonEmpty_append, nonEmpty_ownNames, ih]

/-- The objects before the first one with a name. -/
theorem titledByComponent_iff : TitledByComponent value ↔
    ∃ obj, (reachable value).find? (fun o => ownNames o ≠ []) = some obj ∧ realTitles obj = [] := by
  constructor
  · rintro ⟨before, obj, after, hsplit, htitle, hreal, hcomponent⟩
    have hnone : before.flatMap ownNames = [] := by
      rw [title_foldl_extractOwn] at htitle
      rw [← nonEmpty_flatMap_ownNames]
      exact firstName_eq_empty htitle
    have hnames : ownNames obj ≠ [] := by
      rw [ownNames, hreal]
      exact hcomponent
    refine ⟨obj, ?_, hreal⟩
    rw [hsplit, List.find?_append, List.find?_eq_none.mpr, Option.none_or,
      List.find?_cons_of_pos (by simpa using hnames)]
    intro o ho
    simpa using List.flatMap_eq_nil_iff.mp hnone o ho
  · rintro ⟨obj, hfind, hreal⟩
    obtain ⟨hnames, before, after, hsplit, hbefore⟩ := List.find?_eq_some_iff_append.mp hfind
    refine ⟨before, obj, after, hsplit, ?_, hreal, ?_⟩
    · have hnone : before.flatMap ownNames = [] :=
        List.flatMap_eq_nil_iff.mpr fun o ho => by simpa using hbefore o ho
      rw [title_foldl_extractOwn, hnone]
      rfl
    · rw [ownNames, hreal] at hnames
      simpa using hnames

theorem find_named {o : Fields} (ho : o ∈ reachable value) (hreal : realTitles o ≠ []) :
    ∃ obj, (reachable value).find? (fun o => ownNames o ≠ []) = some obj := by
  cases hfind : (reachable value).find? (fun o => ownNames o ≠ []) with
  | some obj => exact ⟨obj, rfl⟩
  | none =>
    have hnone := List.find?_eq_none.mp hfind o ho
    simp [ownNames, hreal] at hnone

/-- The title is the first name of the first object that has one. -/
theorem title_of_find {obj : Fields}
    (h : (reachable value).find? (fun o => ownNames o ≠ []) = some obj) :
    (extractFromValue value {}).title = (ownNames obj).headD "" := by
  obtain ⟨hnames, before, after, hsplit, hbefore⟩ := List.find?_eq_some_iff_append.mp h
  have hnone : before.flatMap ownNames = [] :=
    List.flatMap_eq_nil_iff.mpr fun o ho => by simpa using hbefore o ho
  rw [title_extractFromValue, hsplit, List.flatMap_append, hnone, List.nil_append,
    List.flatMap_cons, firstName, nonEmpty_append, nonEmpty_ownNames]
  cases hown : ownNames obj with
  | nil => simp [hown] at hnames
  | cons x rest => rfl

/-- A component name hides the titles of all objects that come later. -/
theorem component_last_resort_iff (value : Value) : LastResort value ↔ RealTitleFirst value := by
  constructor
  · rintro ⟨-, hcomponent⟩ obj hfind
    by_cases hreal : realTitles obj = []
    · exact .inr (hcomponent (titledByComponent_iff.mpr ⟨obj, hfind, hreal⟩))
    · exact .inl hreal
  · intro hfirst
    constructor
    · rintro ⟨o, ho, hreal⟩
      obtain ⟨obj, hfind⟩ := find_named ho hreal
      have hobj : realTitles obj ≠ [] :=
        (hfirst obj hfind).resolve_right fun hnone => hreal (hnone o ho)
      rw [title_of_find hfind, ownNames]
      obtain ⟨x, rest, hx⟩ := List.exists_cons_of_ne_nil hobj
      rw [hx, List.cons_append, List.headD_cons]
      exact List.mem_flatMap.mpr
        ⟨obj, List.mem_of_find?_eq_some hfind, hx ▸ List.mem_cons_self⟩
    · intro hcomponent
      obtain ⟨obj, hfind, hreal⟩ := titledByComponent_iff.mp hcomponent
      exact (hfirst obj hfind).resolve_left fun h => h hreal

/-- A frame without a title around a page with one. -/
def titledContent : Value :=
  .object [("component", .string "Frame"),
    ("content", .object [("title", .string "Confirm")])]

theorem reachable_titledContent : reachable titledContent =
    [[("component", .string "Frame"), ("content", .object [("title", .string "Confirm")])],
      [("title", .string "Confirm")]] := by
  have hleaf : screen.preorder [("title", .string "Confirm")] = [[("title", .string "Confirm")]] := by
    rw [Descent.preorder_eq]
    rfl
  show screen.preorder _ = _
  rw [Descent.preorder_eq]
  show _ :: List.flatMap screen.preorder [[("title", Value.string "Confirm")]] = _
  rw [List.flatMap_singleton, hleaf]

theorem component_hides_title : ¬ LastResort titledContent := by
  intro h
  have htitle : (extractFromValue titledContent {}).title = "Frame" := by
    rw [title_extractFromValue, reachable_titledContent]
    rfl
  have hmem := h.1 ⟨[("title", .string "Confirm")], by rw [reachable_titledContent]; simp, nofun⟩
  rw [htitle, reachable_titledContent] at hmem
  exact absurd hmem (by decide)

end Hwwctl.Protocol
