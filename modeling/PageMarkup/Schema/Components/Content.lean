import PageMarkup.Schema.Basic

/-! Basic content. -/

namespace PageMarkup.Schema.Components

def icon : Component where
  name := "icon"
  desc := some "图标"
  docLink := some "https://developers.weixin.qq.com/miniprogram/dev/component/icon.html"
  attributes := [
    { name := "type", kind := .enum [
        { value := "success" },
        { value := "success_no_circle" },
        { value := "info" },
        { value := "warn" },
        { value := "waiting" },
        { value := "cancel" },
        { value := "download" },
        { value := "search" },
        { value := "clear" }], desc := some "icon 的类型" },
    { name := "size", kind := .string, desc := some "icon 的大小", defaultValue := some "23" },
    { name := "color", kind := .string, desc := some "icon 的颜色，同 css 的 color" }]

def text : Component where
  name := "text"
  desc := some "文本"
  docLink := some "https://developers.weixin.qq.com/miniprogram/dev/component/text.html"
  tips := [
    "decode 可以解析的有 &nbsp; &lt; &gt; &amp; &apos; &ensp; &emsp;",
    "text 组件内只支持 text 嵌套"]
  attributes := [
    { name := "selectable", kind := .boolean, desc := some "文本是否可选",
      defaultValue := some "false" },
    { name := "space", kind := .enum [
        { value := "ensp", desc := some "中文字符空格一半大小" },
        { value := "emsp", desc := some "中文字符空格大小" },
        { value := "nbsp", desc := some "根据字体设置的空格大小" }], desc := some "显示连续空格",
      defaultValue := some "无" },
    { name := "decode", kind := .boolean, desc := some "是否解码", defaultValue := some "false" }]

def richText : Component where
  name := "rich-text"
  desc := some "富文本"
  docLink := some "https://developers.weixin.qq.com/miniprogram/dev/component/rich-text.html"
  attributes := [
    { name := "nodes", kind := .string, desc := some "节点列表/HTML String" },
    { name := "space", kind := .enum [
        { value := "ensp", desc := some "中文字符空格一半大小" },
        { value := "emsp", desc := some "中文字符空格大小" },
        { value := "nbsp", desc := some "根据字体设置的空格大小" }], desc := some "显示连续空格",
      defaultValue := some "无", since := some "2.4.1" }]

def progress : Component where
  name := "progress"
  desc := some "进度条"
  docLink := some "https://developers.weixin.qq.com/miniprogram/dev/component/progress.html"
  attributes := [
    { name := "percent", kind := .number, desc := some "百分比0~100" },
    { name := "show-info", kind := .boolean, desc := some "在进度条右侧显示百分比",
      defaultValue := some "false" },
    { name := "border-radius", kind := .string, desc := some "圆角大小", defaultValue := some "0",
      since := some "2.3.1" },
    { name := "font-size", kind := .string, desc := some "右侧百分比字体大小", defaultValue := some "16",
      since := some "2.3.1" },
    { name := "stroke-width", kind := .number, desc := some "进度条线的宽度", defaultValue := some "6" },
    { name := "color", kind := .string, desc := some "进度条颜色（请使用 activeColor）",
      defaultValue := some "#09BB07" },
    { name := "activeColor", kind := .string, desc := some "已选择的进度条的颜色",
      defaultValue := some "#09BB07" },
    { name := "backgroundColor", kind := .string, desc := some "未选择的进度条的颜色",
      defaultValue := some "#EBEBEB" },
    { name := "active", kind := .boolean, desc := some "进度条从左往右的动画",
      defaultValue := some "false" },
    { name := "active-mode", kind := .enum [
        { value := "backwards", desc := some "动画从头播" },
        { value := "forwards", desc := some "动画从上次结束点接着播" }], desc := some "动画播放方式",
      defaultValue := some "backwards" },
    { name := "bindactiveend", kind := .function, desc := some "动画完成事件", since := some "2.4.1" }]

end PageMarkup.Schema.Components
