import Hwwctl.Library.Serde

/-!
# Screen layouts

The debug link describes a screen by tokens whose concatenation is a JSON text. `parse_layout_tokens`
collects the title, the text lines and the button labels from it. The JSON parser is not this
repository's code.
-/

namespace Hwwctl.Protocol

open Serde

structure ParsedLayout where
  title : String := ""
  lines : List String := []
  buttons : List String := []
deriving DecidableEq, Repr

def strField (key : String) (obj : Fields) : Option String := (get key obj).bind Value.asStr

/-- `if layout.title.is_empty()`. -/
def titleFrom (t : Option String) (layout : ParsedLayout) : ParsedLayout :=
  if layout.title = "" then
    match t with
    | some t => if t = "" then layout else { layout with title := t }
    | none => layout
  else layout

def extractTitle (obj : Fields) (layout : ParsedLayout) : ParsedLayout :=
  let component := (strField "component" obj).getD ""
  let layout := titleFrom (strField "title" obj) layout
  let layout := titleFrom (strField "subtitle" obj) layout
  let layout := titleFrom (strField "label" obj) layout
  titleFrom (some component) layout

def pushButton (t : String) (layout : ParsedLayout) : ParsedLayout :=
  if t = "" then layout else { layout with buttons := layout.buttons ++ [t] }

def pushLine (t : String) (layout : ParsedLayout) : ParsedLayout :=
  if t = "" then layout else { layout with lines := layout.lines ++ [t] }

/-- A button is an object with a text or just a string. -/
def buttonText (btn : Value) : Option String :=
  (btn.asObject.bind (strField "text")).or btn.asStr

def extractButtons (obj : Fields) (layout : ParsedLayout) : ParsedLayout :=
  match (get "buttons" obj).bind Value.asObject with
  | some buttons =>
    ["left", "middle", "right"].foldl (fun layout key =>
      match (get key buttons).bind buttonText with
      | some t => pushButton t layout
      | none => layout) layout
  | none => layout

/-- A paragraph is an array of words or just a string. -/
def paragraphText : Value → Option String
  | .array words => some (" ".intercalate (words.filterMap Value.asStr))
  | .string s => some s
  | _ => none

def extractParagraphs (obj : Fields) (layout : ParsedLayout) : ParsedLayout :=
  match (get "paragraphs" obj).bind Value.asArray with
  | some paras =>
    paras.foldl (fun layout para =>
      match paragraphText para with
      | some text => pushLine text layout
      | none => layout) layout
  | none => layout

def extractText (key : String) (obj : Fields) (layout : ParsedLayout) : ParsedLayout :=
  match strField key obj with
  | some t => pushLine t layout
  | none => layout

def extractNotification (obj : Fields) (layout : ParsedLayout) : ParsedLayout :=
  match strField "notification" obj with
  | some notif => if notif = "" then layout else pushLine s!"[{notif}]" layout
  | none => layout

/-- What an object says itself. -/
def extractOwn (obj : Fields) (layout : ParsedLayout) : ParsedLayout :=
  let layout := extractTitle obj layout
  let layout := extractButtons obj layout
  let layout := extractParagraphs obj layout
  let layout := extractText "description" obj layout
  let layout := extractText "text" obj layout
  let layout := extractText "value" obj layout
  extractNotification obj layout

theorem sizeOf_get {key : String} {obj : Fields} {v : Value} (h : get key obj = some v) :
    sizeOf v < sizeOf obj := by
  obtain ⟨f, hf, rfl⟩ := Option.map_eq_some_iff.mp h
  have hmem := List.sizeOf_lt_of_mem (List.mem_reverse.mp (List.mem_of_find?_eq_some hf))
  have hsnd : sizeOf f.2 < sizeOf f := by
    obtain ⟨name, v⟩ := f
    simp only [Prod.mk.sizeOf_spec]
    omega
  omega

theorem sizeOf_asArray {v : Value} {elems : List Value} (h : v.asArray = some elems) :
    sizeOf elems < sizeOf v := by
  cases v with
  | array es =>
    cases h
    simp
  | _ => cases h

def extractFromValue (value : Value) (layout : ParsedLayout) : ParsedLayout :=
  match value with
  | .object obj =>
    let layout := extractOwn obj layout
    let layout := ["content", "page", "inner"].foldl (fun layout key =>
      match _h : get key obj with
      | some sub => extractFromValue sub layout
      | none => layout) layout
    ["items", "pages"].foldl (fun layout key =>
      match _h : (get key obj).bind Value.asArray with
      | some arr => arr.attach.foldl (fun layout item => extractFromValue item.1 layout) layout
      | none => layout) layout
  | _ => layout
termination_by sizeOf value
decreasing_by
  · have := sizeOf_get _h
    simp
    omega
  · obtain ⟨v, hv, harr⟩ := Option.bind_eq_some_iff.mp _h
    have := sizeOf_get hv
    have := sizeOf_asArray harr
    have := List.sizeOf_lt_of_mem item.2
    simp
    omega

/-- `from_str` is `serde_json::from_str`. Tokens that are no JSON are plain lines. -/
def parseLayoutTokens (fromStr : String → Option Value) (tokens : List String) : ParsedLayout :=
  let jsonStr := String.join tokens
  if jsonStr = "" then {}
  else
    match fromStr jsonStr with
    | none => { lines := tokens }
    | some value => extractFromValue value {}

end Hwwctl.Protocol
