import PageMarkup.Schema.Basic

/-! Elements that structure a page without showing anything themselves. -/

namespace PageMarkup.Schema.Components

def block : Component where
  name := "block"
  desc := some "包装元素，不会在页面中做任何渲染，只接受控制属性"

def template : Component where
  name := "template"
  desc := some "定义代码片段，然后在不同的地方调用"
  attributes := [
    { name := "name", kind := .string, desc := some "模板的名字" },
    { name := "is", kind := .string, desc := some "要使用的模板的名字，可以是动态的 Mustache 语法" },
    { name := "data", kind := .string, desc := some "传入模板的数据" }]

def importElement : Component where
  name := "import"
  desc := some "引用目标文件定义的 template"
  attributes := [
    { name := "src", kind := .string, desc := some "目标文件的相对路径" }]

def includeElement : Component where
  name := "include"
  desc := some "将目标文件除了 <template/> <wxs/> 外的整个代码引入"
  attributes := [
    { name := "src", kind := .string, desc := some "目标文件的相对路径" }]

def slot : Component where
  name := "slot"
  desc := some "自定义组件的插槽"
  attributes := [
    { name := "name", kind := .string, desc := some "插槽的名字" }]

end PageMarkup.Schema.Components
