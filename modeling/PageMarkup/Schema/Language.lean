import PageMarkup.Schema.Basic

/-!
# Attributes of the language

Besides those of its component every element takes the attributes of the language: a few global
ones, handlers for common events in four spellings, conditions and loops. Where a component declares
a name itself, its own declaration is the one that counts.
-/

namespace PageMarkup.Schema

private def described (kind : ValueKind) (name desc : String) : AttributeRule :=
  { name, kind, desc := some desc }

def events : List (String × String) :=
  [("touchstart", "手指触摸动作开始"),
    ("touchmove", "手指触摸后移动"),
    ("touchcancel", "手指触摸动作被打断，如来电提醒，弹窗"),
    ("touchend", "手指触摸动作结束"),
    ("tap", "手指触摸后马上离开"),
    ("longpress", "手指触摸后，超过350ms再离开"),
    ("longtap", "手指触摸后，超过350ms再离开（推荐使用 longpress）"),
    ("transitionend", "会在 WXSS transition 或 wx.createAnimation 动画结束后触发"),
    ("animationstart", "会在一个 WXSS animation 动画开始时触发"),
    ("animationiteration", "会在一个 WXSS animation 一次迭代结束时触发"),
    ("animationend", "会在一个 WXSS animation 动画完成时触发"),
    ("touchforcechange", "在支持 3D Touch 的 iPhone 设备，重按时会触发")]

def globalAttributes : List AttributeRule :=
  [described .string "id" "组件的唯一标示",
    described .string "class" "组件的样式类",
    described .string "style" "组件的内联样式",
    described .boolean "hidden" "组件是否显示"]

def eventAttributes : List AttributeRule :=
  ["bind:", "catch:", "bind", "catch"].flatMap fun binder =>
    events.map fun (event, desc) => described .event (binder ++ event) desc

def conditionAttributes : List AttributeRule :=
  [described .boolean "wx:if" "根据条件决定是否渲染该节点",
    described .boolean "wx:elif" "前一个 wx:if 不成立时判断的条件",
    described .logic "wx:else" "前面的条件都不成立时渲染该节点",
    described .logic "wx:key" "列表项的唯一标识"]

def loopAttributes : List AttributeRule :=
  [described .iterate "wx:for" "绑定一个数组，使用数组中各项重复渲染该组件",
    described .iterate "wx:for-items" "wx:for 的旧写法",
    described .logic "wx:for-index" "数组当前项下标的变量名，默认为 index",
    described .logic "wx:for-item" "数组当前项的变量名，默认为 item",
    described .logic "wx:item" "wx:for-item 的简写",
    described .logic "wx:index" "wx:for-index 的简写"]

def common : List AttributeRule :=
  globalAttributes ++ eventAttributes ++ conditionAttributes ++ loopAttributes

/-- Every declaration that concerns an element of the tag, the component's own first. -/
def rules (s : Schema) (tag : String) (mode : Option String) : List AttributeRule :=
  s.declared tag mode ++ common

/-- The attributes that an element of the tag accepts, each once. -/
def accepted (s : Schema) (tag : String) (mode : Option String) : List AttributeRule :=
  distinctBy AttributeRule.name (s.rules tag mode)

def rule? (s : Schema) (tag name : String) (mode : Option String) : Option AttributeRule :=
  (s.rules tag mode).find? (·.name = name)

theorem find?_accepted (s : Schema) (tag name : String) (mode : Option String) :
    (s.accepted tag mode).find? (·.name = name) = s.rule? tag name mode :=
  find?_distinctBy AttributeRule.name name (s.rules tag mode)

/-- Values to offer for an attribute: those that the component declares, if any, or else those of
the declaration that counts. -/
def choices (s : Schema) (tag name : String) (mode : Option String) : List Choice :=
  match s.declaredChoices tag name mode with
  | [] =>
    match s.rule? tag name mode with
    | none => []
    | some rule => rule.kind.choices
  | own => own

end PageMarkup.Schema
