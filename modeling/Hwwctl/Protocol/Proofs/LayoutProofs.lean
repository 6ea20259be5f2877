import Hwwctl.Library.Walk
import Hwwctl.Protocol.Layout

/-!
# What a layout shows of its JSON value

`extract_from_value` treats an object before the objects below it, so it is a fold over all objects
in pre-order. Lines and buttons are what each object adds, whatever is there already; the title is
the first name that any object has.
-/

namespace Hwwctl.Protocol

open Serde

/-! ## The objects of a value -/

/-- The objects that `extract_from_value` goes on to, in its order. -/
def childObjects (obj : Fields) : List Fields :=
  (["content", "page", "inner"].filterMap fun key => (get key obj).bind Value.asObject) ++
    ["items", "pages"].flatMap fun key =>
      (((get key obj).bind Value.asArray).getD []).filterMap Value.asObject

theorem sizeOf_asObject {v : Value} {obj : Fields} (h : v.asObject = some obj) :
    sizeOf obj < sizeOf v := by
  cases v with
  | object fields =>
    cases h
    simp
  | _ => cases h

theorem sizeOf_childObjects (obj : Fields) : ∀ o ∈ childObjects obj, sizeOf o < sizeOf obj := by
  intro o ho
  rcases List.mem_append.mp ho with ho | ho
  · obtain ⟨key, -, hkey⟩ := List.mem_filterMap.mp ho
    obtain ⟨v, hv, hobj⟩ := Option.bind_eq_some_iff.mp hkey
    have := sizeOf_get hv
    have := sizeOf_asObject hobj
    omega
  · obtain ⟨key, -, hkey⟩ := List.mem_flatMap.mp ho
    obtain ⟨item, hitem, hobj⟩ := List.mem_filterMap.mp hkey
    cases harr : (get key obj).bind Value.asArray with
    | none => simp [harr] at hitem
    | some arr =>
      rw [harr, Option.getD_some] at hitem
      obtain ⟨v, hv, hv'⟩ := Option.bind_eq_some_iff.mp harr
      have := sizeOf_get hv
      have := sizeOf_asArray hv'
      have := List.sizeOf_lt_of_mem hitem
      have := sizeOf_asObject hobj
      omega

noncomputable def screen : Descent Fields where
  children := childObjects
  size := sizeOf
  smaller := sizeOf_childObjects

/-- All objects that can be reached from a value, in pre-order. -/
noncomputable def reachable (value : Value) : List Fields :=
  match value.asObject with
  | some obj => screen.preorder obj
  | none => []

/-- A value is a single object, or nothing is taken from it. -/
theorem extractFromValue_asObject (value : Value) (layout : ParsedLayout) :
    extractFromValue value layout = match value.asObject with
      | some obj => extractFromValue (.object obj) layout
      | none => layout := by
  cases value with
  | object obj => rfl
  | _ =>
    rw [extractFromValue]
    · rfl
    · intro obj hobj
      cases hobj

theorem foldl_filterMap_asObject (values : List Value) (layout : ParsedLayout) :
    values.foldl (fun layout item => extractFromValue item layout) layout =
      (values.filterMap Value.asObject).foldl (fun l o => extractFromValue (.object o) l) layout := by
  induction values generalizing layout with
  | nil => rfl
  | cons v values ih =>
    rw [List.foldl_cons, ih, extractFromValue_asObject]
    cases hv : v.asObject with
    | none => rw [List.filterMap_cons_none hv]
    | some obj => rw [List.filterMap_cons_some hv, List.foldl_cons]

theorem foldl_sub (obj : Fields) (keys : List String) (layout : ParsedLayout) :
    keys.foldl (fun layout key =>
        match _h : get key obj with
        | some sub => extractFromValue sub layout
        | none => layout) layout =
      (keys.filterMap fun key => (get key obj).bind Value.asObject).foldl
        (fun l o => extractFromValue (.object o) l) layout := by
  induction keys generalizing layout with
  | nil => rfl
  | cons key keys ih =>
    rw [List.foldl_cons, ih]
    split
    · next sub hget =>
      rw [extractFromValue_asObject]
      cases hobj : sub.asObject <;> simp [hget, hobj]
    · next hget => simp [hget]

theorem foldl_items (obj : Fields) (keys : List String) (layout : ParsedLayout) :
    keys.foldl (fun layout key =>
        match _h : (get key obj).bind Value.asArray with
        | some arr => arr.foldl (fun layout item => extractFromValue item layout) layout
        | none => layout) layout =
      (keys.flatMap fun key =>
          (((get key obj).bind Value.asArray).getD []).filterMap Value.asObject).foldl
        (fun l o => extractFromValue (.object o) l) layout := by
  induction keys generalizing layout with
  | nil => rfl
  | cons key keys ih =>
    rw [List.foldl_cons, ih, List.flatMap_cons, List.foldl_append]
    split
    · next arr harr => rw [foldl_filterMap_asObject, harr, Option.getD_some]
    · next harr =>
      rw [harr]
      rfl

theorem extractFromValue_object (obj : Fields) (layout : ParsedLayout) :
    extractFromValue (.object obj) layout =
      (childObjects obj).foldl (fun l o => extractFromValue (.object o) l)
        (extractOwn obj layout) := by
  rw [extractFromValue, childObjects, List.foldl_append]
  simp only [List.foldl_subtype, List.unattach_attach]
  have hsub := foldl_sub obj ["content", "page", "inner"] (extractOwn obj layout)
  rw [← hsub]
  exact foldl_items obj ["items", "pages"] _

/-- Each object is treated on its own, in pre-order. -/
theorem extractFromValue_eq (value : Value) (layout : ParsedLayout) :
    extractFromValue value layout =
      (reachable value).foldl (fun layout obj => extractOwn obj layout) layout := by
  rw [extractFromValue_asObject, reachable]
  cases value.asObject with
  | none => rfl
  | some obj =>
    exact screen.foldl_preorder (fun o l => extractFromValue_object o l) obj layout

/-! ## Lines and buttons -/

def nonEmpty (texts : List String) : List String := texts.filter (· ≠ "")

theorem nonEmpty_append (xs ys : List String) : nonEmpty (xs ++ ys) = nonEmpty xs ++ nonEmpty ys :=
  List.filter_append xs ys

/-- The text that an object has under a key. -/
def textAt (key : String) (obj : Fields) : Option String :=
  match get key obj with
  | some (.string t) => some t
  | _ => none

theorem strField_eq (key : String) (obj : Fields) : strField key obj = textAt key obj := by
  unfold strField textAt
  cases get key obj with
  | none => rfl
  | some v => cases v <;> rfl

/-- The texts that an object has under some of its keys. -/
def texts (keys : List String) (obj : Fields) : List String :=
  nonEmpty (keys.flatMap fun key => (textAt key obj).toList)

theorem texts_cons (key : String) (keys : List String) (obj : Fields) :
    texts (key :: keys) obj = nonEmpty (textAt key obj).toList ++ texts keys obj := by
  rw [texts, List.flatMap_cons, nonEmpty_append, texts]

@[simp] theorem texts_nil (obj : Fields) : texts [] obj = [] := rfl

/-- What stands on a button: it is a text or has one. -/
def labelOf : Value → Option String
  | .string t => some t
  | .object fields => textAt "text" fields
  | _ => none

theorem buttonText_eq (btn : Value) : buttonText btn = labelOf btn := by
  cases btn with
  | object fields =>
    show (strField "text" fields).or none = textAt "text" fields
    rw [Option.or_none, strField_eq]
  | _ => rfl

/-- The labels of an object's buttons, from left to right. -/
def ownButtons (obj : Fields) : List String :=
  match get "buttons" obj with
  | some (.object buttons) =>
    nonEmpty (["left", "middle", "right"].filterMap fun key => (get key buttons).bind labelOf)
  | _ => []

/-- The words among some values. -/
def wordsOf : List Value → List String
  | [] => []
  | .string w :: values => w :: wordsOf values
  | _ :: values => wordsOf values

theorem filterMap_asStr (values : List Value) : values.filterMap Value.asStr = wordsOf values := by
  induction values with
  | nil => rfl
  | cons v values ih =>
    cases v with
    | string w =>
      rw [wordsOf, ← ih]
      rfl
    | _ =>
      rw [wordsOf, ← ih]
      · rfl
      · simp

/-- What a paragraph says: it is a text or consists of words. -/
def paragraphOf : Value → Option String
  | .string t => some t
  | .array words => some (" ".intercalate (wordsOf words))
  | _ => none

theorem paragraphText_eq (para : Value) : paragraphText para = paragraphOf para := by
  cases para with
  | array words => rw [paragraphText, filterMap_asStr, paragraphOf]
  | _ => rfl

/-- What the paragraphs of an object say. -/
def paragraphs (obj : Fields) : List String :=
  match get "paragraphs" obj with
  | some (.array paras) => paras.filterMap paragraphOf
  | _ => []

/-- The lines of an object: its paragraphs, then its texts, and its notification in brackets. -/
def ownLines (obj : Fields) : List String :=
  nonEmpty (paragraphs obj) ++ texts ["description", "text", "value"] obj ++
    (texts ["notification"] obj).map fun notif => s!"[{notif}]"

def addButtons (ts : List String) (layout : ParsedLayout) : ParsedLayout :=
  { layout with buttons := layout.buttons ++ ts }

def addLines (ts : List String) (layout : ParsedLayout) : ParsedLayout :=
  { layout with lines := layout.lines ++ ts }

theorem pushButton_eq (t : String) (layout : ParsedLayout) :
    pushButton t layout = addButtons (nonEmpty [t]) layout := by
  unfold pushButton addButtons nonEmpty
  split_ifs with h
  · simp [h]
  · simp [h]

theorem pushLine_eq (t : String) (layout : ParsedLayout) :
    pushLine t layout = addLines (nonEmpty [t]) layout := by
  unfold pushLine addLines nonEmpty
  split_ifs with h
  · simp [h]
  · simp [h]

/-- A loop that pushes the texts it finds. -/
theorem foldl_push {α : Type} {push : String → ParsedLayout → ParsedLayout}
    {add : List String → ParsedLayout → ParsedLayout} (hnil : ∀ l, add [] l = l)
    (hadd : ∀ xs ys l, add ys (add xs l) = add (xs ++ ys) l)
    (hpush : ∀ t l, push t l = add (nonEmpty [t]) l) (text : α → Option String) (as : List α)
    (layout : ParsedLayout) :
    as.foldl (fun layout a =>
        match text a with
        | some t => push t layout
        | none => layout) layout =
      add (nonEmpty (as.filterMap text)) layout := by
  induction as generalizing layout with
  | nil => exact (hnil layout).symm
  | cons a as ih =>
    rw [List.foldl_cons, ih]
    cases htext : text a with
    | none => rw [List.filterMap_cons_none htext]
    | some t =>
      rw [List.filterMap_cons_some htext]
      show add _ (push t layout) = _
      rw [hpush, hadd, ← nonEmpty_append]
      rfl

section Own

variable (obj : Fields) (layout : ParsedLayout)

@[simp] theorem addLines_nil : addLines [] layout = layout := by simp [addLines]

@[simp] theorem addButtons_nil : addButtons [] layout = layout := by simp [addButtons]

theorem addLines_addLines (xs ys : List String) :
    addLines ys (addLines xs layout) = addLines (xs ++ ys) layout := by simp [addLines]

theorem addButtons_addButtons (xs ys : List String) :
    addButtons ys (addButtons xs layout) = addButtons (xs ++ ys) layout := by simp [addButtons]

theorem extractButtons_eq : extractButtons obj layout = addButtons (ownButtons obj) layout := by
  unfold extractButtons ownButtons
  cases get "buttons" obj with
  | none => exact (addButtons_nil layout).symm
  | some v =>
    cases v with
    | object buttons =>
      have hlabel : buttonText = labelOf := funext buttonText_eq
      rw [← hlabel]
      exact foldl_push addButtons_nil (fun xs ys l => addButtons_addButtons l xs ys) pushButton_eq
        _ _ _
    | _ => exact (addButtons_nil layout).symm

theorem extractParagraphs_eq :
    extractParagraphs obj layout = addLines (nonEmpty (paragraphs obj)) layout := by
  unfold extractParagraphs paragraphs
  cases get "paragraphs" obj with
  | none => exact (addLines_nil layout).symm
  | some v =>
    cases v with
    | array paras =>
      have hparagraph : paragraphText = paragraphOf := funext paragraphText_eq
      rw [← hparagraph]
      exact foldl_push addLines_nil (fun xs ys l => addLines_addLines l xs ys) pushLine_eq _ _ _
    | _ => exact (addLines_nil layout).symm

theorem extractText_eq (key : String) :
    extractText key obj layout = addLines (texts [key] obj) layout := by
  rw [extractText, texts_cons, texts_nil, List.append_nil, strField_eq]
  cases textAt key obj with
  | none => exact (addLines_nil layout).symm
  | some t => exact pushLine_eq t layout

theorem extractNotification_eq : extractNotification obj layout =
    addLines ((texts ["notification"] obj).map fun notif => s!"[{notif}]") layout := by
  rw [extractNotification, texts_cons, texts_nil, List.append_nil, strField_eq]
  cases textAt "notification" obj with
  | none => exact (addLines_nil layout).symm
  | some notif =>
    dsimp only
    split_ifs with h
    · simp [nonEmpty, h]
    · have hbracket : toString "[" ≠ "" := by decide
      simp [pushLine_eq, nonEmpty, h, hbracket]

/-- The lines of an object, and nothing else is in the way of its title. -/
theorem extractOwn_eq : extractOwn obj layout =
    addLines (ownLines obj) (addButtons (ownButtons obj) (extractTitle obj layout)) := by
  have htexts : texts ["description", "text", "value"] obj =
      texts ["description"] obj ++ texts ["text"] obj ++ texts ["value"] obj := by
    simp only [texts_cons, texts_nil, List.append_nil, List.append_assoc]
  simp only [extractOwn, extractButtons_eq, extractParagraphs_eq, extractText_eq,
    extractNotification_eq, addLines_addLines, ownLines, htexts, List.append_assoc]

end Own

/-! ## Titles -/

/-- What the object says its title is, in the order in which it is preferred. -/
def realTitles (obj : Fields) : List String := texts ["title", "subtitle", "label"] obj

def componentName (obj : Fields) : List String := texts ["component"] obj

def ownNames (obj : Fields) : List String := realTitles obj ++ componentName obj

/-- The first of some names that is not empty. -/
def firstName (names : List String) : String := (nonEmpty names).headD ""

theorem firstName_append (xs ys : List String) :
    firstName (firstName xs :: ys) = firstName (xs ++ ys) := by
  unfold firstName
  rw [nonEmpty_append]
  cases hxs : nonEmpty xs with
  | nil => simp [nonEmpty]
  | cons x rest =>
    have hx : x ∈ nonEmpty xs := hxs ▸ List.mem_cons_self
    have hne : x ≠ "" := by simpa using (List.mem_filter.mp hx).2
    simp [nonEmpty, hne]

theorem title_titleFrom (t : Option String) (layout : ParsedLayout) :
    (titleFrom t layout).title = firstName (layout.title :: t.toList) := by
  unfold titleFrom firstName nonEmpty
  by_cases htitle : layout.title = ""
  · rw [if_pos htitle, htitle]
    cases t with
    | none => exact htitle
    | some t =>
      dsimp only
      split_ifs with ht
      · simp [ht, htitle]
      · simp [ht]
  · simp [htitle]

theorem firstName_nonEmpty (xs ys : List String) :
    firstName (xs ++ nonEmpty ys) = firstName (xs ++ ys) := by
  have hidem : nonEmpty (nonEmpty ys) = nonEmpty ys := by simp [nonEmpty]
  rw [firstName, nonEmpty_append, hidem, ← nonEmpty_append, firstName]

/-- A title that is there stays. -/
theorem title_extractTitle (obj : Fields) (layout : ParsedLayout) :
    (extractTitle obj layout).title = firstName (layout.title :: ownNames obj) := by
  have hcomponent : ∀ xs, firstName (xs ++ (some ((textAt "component" obj).getD "")).toList) =
      firstName (xs ++ (textAt "component" obj).toList) := by
    intro xs
    cases textAt "component" obj with
    | none => simp [firstName, nonEmpty]
    | some c => rfl
  have hnames : firstName (layout.title :: ownNames obj) = firstName ([layout.title] ++
      ((textAt "title" obj).toList ++ (textAt "subtitle" obj).toList ++
        (textAt "label" obj).toList ++ (textAt "component" obj).toList)) := by
    rw [← firstName_nonEmpty]
    simp only [nonEmpty_append, ownNames, realTitles, componentName, texts_cons, texts_nil,
      List.append_assoc, List.append_nil, List.cons_append, List.nil_append]
  have hlast := hcomponent (layout.title :: ((textAt "title" obj).toList ++
    ((textAt "subtitle" obj).toList ++ (textAt "label" obj).toList)))
  rw [hnames]
  simp only [List.cons_append, List.append_assoc, List.nil_append] at hlast ⊢
  simp only [extractTitle, strField_eq, title_titleFrom, firstName_append, List.cons_append,
    List.append_assoc, hlast]

/-! ## The whole layout -/

section Whole

variable (value : Value) (layout : ParsedLayout)

theorem lines_extractOwn (obj : Fields) :
    (extractOwn obj layout).lines = layout.lines ++ ownLines obj := by
  have htitle : ∀ t l, (titleFrom t l).lines = l.lines := by
    intro t l
    unfold titleFrom
    grind
  rw [extractOwn_eq]
  show (extractTitle obj layout).lines ++ ownLines obj = _
  simp only [extractTitle, htitle]

theorem buttons_extractOwn (obj : Fields) :
    (extractOwn obj layout).buttons = layout.buttons ++ ownButtons obj := by
  have htitle : ∀ t l, (titleFrom t l).buttons = l.buttons := by
    intro t l
    unfold titleFrom
    grind
  rw [extractOwn_eq]
  show (extractTitle obj layout).buttons ++ ownButtons obj = _
  simp only [extractTitle, htitle]

theorem lines_extractFromValue : (extractFromValue value layout).lines =
    layout.lines ++ (reachable value).flatMap ownLines := by
  rw [extractFromValue_eq]
  exact List.foldl_append_flatMap (fun l o => lines_extractOwn l o) _ _

theorem buttons_extractFromValue : (extractFromValue value layout).buttons =
    layout.buttons ++ (reachable value).flatMap ownButtons := by
  rw [extractFromValue_eq]
  exact List.foldl_append_flatMap (fun l o => buttons_extractOwn l o) _ _

/-- The first name that any object has, unless there is a title already. -/
theorem title_foldl_extractOwn (objs : List Fields) :
    (objs.foldl (fun layout obj => extractOwn obj layout) layout).title =
      firstName (layout.title :: objs.flatMap ownNames) := by
  induction objs generalizing layout with
  | nil =>
    show layout.title = firstName (layout.title :: [])
    unfold firstName nonEmpty
    by_cases h : layout.title = "" <;> simp [h]
  | cons obj objs ih =>
    have htitle : (extractOwn obj layout).title = (extractTitle obj layout).title := by
      rw [extractOwn_eq]
      rfl
    rw [List.foldl_cons, ih, htitle, title_extractTitle, firstName_append, List.flatMap_cons,
      List.cons_append]

end Whole

end Hwwctl.Protocol
