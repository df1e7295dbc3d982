import PageMarkup.Json.Record
import PageMarkup.Schema.Basic

/-!
# Schemas as JSON

Missing descriptions and empty lists are left out when a schema is written and filled in when it is
read. Values may be nested less than 128 deep; `room` counts the levels that are left.
-/

namespace PageMarkup.Schema

/-! ## Writing -/

def encodeChoice (v : Choice) : Json :=
  .ofFields [("value", some (.string v.value)), ("desc", v.desc.map .string)]

def encodeKind (kind : ValueKind) : Json :=
  .ofFields [("name", some (.string kind.name)),
    ("values", match kind with
      | .enum choices => some (.array (choices.map encodeChoice))
      | _ => none)]

def nonempty : List Json → Option Json
  | [] => none
  | items => some (.array items)

mutual
def encodeAttribute : AttributeRule → Json
  | ⟨name, kind, desc, defaultValue, since, modes⟩ =>
    .ofFields [("name", some (.string name)), ("type", some (encodeKind kind)),
      ("desc", desc.map .string), ("defaultValue", defaultValue.map .string),
      ("since", since.map .string), ("subAttrs", nonempty (encodeModes modes))]
def encodeModes : List (String × List AttributeRule) → List Json
  | [] => []
  | mode :: rest => encodeMode mode :: encodeModes rest
def encodeMode : String × List AttributeRule → Json
  | (equal, attrs) =>
    .object [("equal", .string equal), ("attrs", .array (encodeAttributes attrs))]
def encodeAttributes : List AttributeRule → List Json
  | [] => []
  | a :: rest => encodeAttribute a :: encodeAttributes rest
end

def encodeComponent (c : Component) : Json :=
  .ofFields [("name", some (.string c.name)), ("desc", c.desc.map .string),
    ("docLink", c.docLink.map .string), ("tips", nonempty (c.tips.map .string)),
    ("attrs", some (.array (encodeAttributes c.attributes)))]

def encode (s : Schema) : Json :=
  .array (s.components.map encodeComponent)

/-! ## Reading -/

def decodeChoice : Nat → Json → Option Choice
  | 0, _ => none
  | _ + 1, j =>
    match Json.record? ["value", "desc"] j with
    | some [some value, desc] => do
      return ⟨← Json.string? value, ← Json.optional? Json.string? desc⟩
    | _ => none

def decodeChoices : Nat → Json → Option (List Choice)
  | room + 1, .array items => items.mapM (decodeChoice room)
  | _, _ => none

def decodeNamedKind (room : Nat) (name : String) (values : Option Json) : Option ValueKind :=
  match name with
  | "string" => some .string
  | "boolean" => some .boolean
  | "number" => some .number
  | "event" => some .event
  | "logic" => some .logic
  | "iterate" => some .iterate
  | "function" => some .function
  | "enum" => (values.bind (decodeChoices room)).map .enum
  | _ => none

/-- A kind with its name in any place, so that all parts are read before the name is known. -/
def decodeKindParts : Nat → Json → Option ValueKind
  | room + 1, .object fields =>
    match Json.occurrences fields "name", fields.lookup "name" with
    | 1, some (.string "enum") =>
      if Json.occurrences fields "values" = 1 then decodeNamedKind room "enum" (fields.lookup "values")
      else none
    | 1, some (.string name) => decodeNamedKind room name none
    | _, _ => none
  | room + 1, .array [.string "enum", values] => decodeNamedKind room "enum" (some values)
  | room + 1, .array [.string name] => decodeNamedKind room name none
  | _, _ => none

def decodeKind (room : Nat) (j : Json) : Option ValueKind :=
  if j.isReadable room then decodeKindParts room j else none

mutual
def decodeAttribute : Nat → Json → Option AttributeRule
  | 0, _ => none
  | room + 1, j =>
    match Json.record? ["name", "type", "desc", "defaultValue", "since", "subAttrs"] j with
    | some [some name, some kind, desc, defaultValue, since, modes] => do
      return {
        name := ← Json.string? name
        kind := ← decodeKind room kind
        desc := ← Json.optional? Json.string? desc
        defaultValue := ← Json.optional? Json.string? defaultValue
        since := ← Json.optional? Json.string? since
        modes := ← decodeModes room modes }
    | _ => none
def decodeModes : Nat → Option Json → Option (List (String × List AttributeRule))
  | _, none => some []
  | room + 1, some (.array items) => items.mapM (decodeMode room)
  | _, _ => none
def decodeMode : Nat → Json → Option (String × List AttributeRule)
  | 0, _ => none
  | room + 1, j =>
    match Json.record? ["equal", "attrs"] j with
    | some [some equal, some attrs] => do
      return (← Json.string? equal, ← decodeAttributes room attrs)
    | _ => none
def decodeAttributes : Nat → Json → Option (List AttributeRule)
  | room + 1, .array items => items.mapM (decodeAttribute room)
  | _, _ => none
end

def decodeTips : Nat → Option Json → Option (List String)
  | _, none => some []
  | _ + 1, some (.array items) => items.mapM Json.string?
  | _, _ => none

def decodeComponent : Nat → Json → Option Component
  | 0, _ => none
  | room + 1, j =>
    match Json.record? ["name", "desc", "docLink", "tips", "attrs"] j with
    | some [some name, desc, docLink, tips, attrs] => do
      return {
        name := ← Json.string? name
        desc := ← Json.optional? Json.string? desc
        docLink := ← Json.optional? Json.string? docLink
        tips := ← decodeTips room tips
        attributes := ← match attrs with
          | none => some []
          | some attrs => decodeAttributes room attrs }
    | _ => none

def decodeComponents : Nat → Json → Option (List Component)
  | room + 1, .array items => items.mapM (decodeComponent room)
  | _, _ => none

def nesting : Nat := 127

def scriptComponent : Component where
  name := "wxs"
  desc := some "WXS（WeiXin Script）是小程序的一套脚本语言，结合 WXML，可以构建出页面的结构"
  docLink := some "https://developers.weixin.qq.com/miniprogram/dev/reference/wxs/"
  attributes := [
    { name := "module", kind := .string, desc := some "当前 <wxs> 标签的模块名。必填字段" },
    { name := "src", kind := .string,
      desc := some "引用 .wxs 文件的相对路径。仅当本标签为单闭合标签或标签的内容为空时有效" }]

/-- A schema of the given components and, unless it is among them, the script element. -/
def ofComponents (components : List Component) : Schema :=
  if components.any (·.name = "wxs") then ⟨components⟩ else ⟨components ++ [scriptComponent]⟩

def decode? (j : Json) : Option Schema :=
  (decodeComponents nesting j).map ofComponents

end PageMarkup.Schema
