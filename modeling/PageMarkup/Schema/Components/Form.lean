import PageMarkup.Schema.Basic

/-! Forms and their controls. -/

namespace PageMarkup.Schema.Components

def button : Component where
  name := "button"
  desc := some "按钮"
  docLink := some "https://developers.weixin.qq.com/miniprogram/dev/component/button.html"
  attributes := [
    { name := "size", kind := .enum [
        { value := "default" },
        { value := "mini" }], desc := some "按钮的大小", defaultValue := some "default" },
    { name := "type", kind := .enum [
        { value := "primary", desc := some "绿色" },
        { value := "default", desc := some "白色" },
        { value := "warn", desc := some "红色" }], desc := some "按钮的样式类型",
      defaultValue := some "default" },
    { name := "plain", kind := .boolean, desc := some "按钮是否镂空，背景色透明",
      defaultValue := some "false" },
    { name := "disabled", kind := .boolean, desc := some "是否禁用", defaultValue := some "false" },
    { name := "loading", kind := .boolean, desc := some "名称前是否带 loading 图标",
      defaultValue := some "false" },
    { name := "form-type", kind := .enum [
        { value := "submit", desc := some "提交表单" },
        { value := "reset", desc := some "重置表单" }],
      desc := some "用于 form 组件，点击分别会触发 form 组件的 submit/reset 事件" },
    { name := "open-type", kind := .enum [
        { value := "contact", desc := some "打开客服会话" },
        { value := "share", desc := some "触发用户转发" },
        { value := "getPhoneNumber", desc := some "获取用户手机号" },
        { value := "getUserInfo", desc := some "获取用户信息" },
        { value := "launchApp", desc := some "打开APP" },
        { value := "openSetting", desc := some "打开授权设置页" },
        { value := "feedback", desc := some "打开“意见反馈”页面" },
        { value := "chooseAvatar", desc := some "获取用户头像" }], desc := some "微信开放能力" },
    { name := "hover-class", kind := .string, desc := some "指定按钮按下去的样式类",
      defaultValue := some "button-hover" },
    { name := "hover-stop-propagation", kind := .boolean, desc := some "指定是否阻止本节点的祖先节点出现点击态",
      defaultValue := some "false" },
    { name := "hover-start-time", kind := .number, desc := some "按住后多久出现点击态，单位毫秒",
      defaultValue := some "20" },
    { name := "hover-stay-time", kind := .number, desc := some "手指松开后点击态保留时间，单位毫秒",
      defaultValue := some "70" },
    { name := "lang", kind := .string, desc := some "指定返回用户信息的语言，zh_CN 简体中文，zh_TW 繁体中文，en 英文",
      defaultValue := some "en" },
    { name := "session-from", kind := .string, desc := some "会话来源，open-type=\"contact\"时有效" },
    { name := "send-message-title", kind := .string,
      desc := some "会话内消息卡片标题，open-type=\"contact\"时有效" },
    { name := "send-message-path", kind := .string,
      desc := some "会话内消息卡片点击跳转小程序路径，open-type=\"contact\"时有效" },
    { name := "send-message-img", kind := .string,
      desc := some "会话内消息卡片图片，open-type=\"contact\"时有效" },
    { name := "app-parameter", kind := .string,
      desc := some "打开 APP 时，向 APP 传递的参数，open-type=launchApp时有效" },
    { name := "show-message-card", kind := .boolean, desc := some "是否显示会话内消息卡片",
      defaultValue := some "false" },
    { name := "bindgetuserinfo", kind := .function, desc := some "用户点击该按钮时，会返回获取到的用户信息" },
    { name := "bindcontact", kind := .function, desc := some "客服消息回调，open-type=\"contact\"时有效" },
    { name := "bindgetphonenumber", kind := .function,
      desc := some "获取用户手机号回调，open-type=getPhoneNumber时有效" },
    { name := "binderror", kind := .function, desc := some "当使用开放能力时，发生错误的回调" },
    { name := "bindopensetting", kind := .function, desc := some "在打开授权设置页后回调" },
    { name := "bindlaunchapp", kind := .function, desc := some "打开 APP 成功的回调" },
    { name := "bindchooseavatar", kind := .function, desc := some "获取用户头像回调" }]

def checkboxGroup : Component where
  name := "checkbox-group"
  desc := some "多项选择器，内部由多个checkbox组成"
  docLink := some "https://developers.weixin.qq.com/miniprogram/dev/component/checkbox-group.html"
  attributes := [
    { name := "bindchange", kind := .function,
      desc := some "checkbox-group中选中项发生改变时触发 change 事件" }]

def checkbox : Component where
  name := "checkbox"
  desc := some "多选项目"
  docLink := some "https://developers.weixin.qq.com/miniprogram/dev/component/checkbox.html"
  attributes := [
    { name := "value", kind := .string,
      desc := some "checkbox标识，选中时触发checkbox-group的 change 事件，并携带 checkbox 的 value" },
    { name := "disabled", kind := .boolean, desc := some "是否禁用", defaultValue := some "false" },
    { name := "checked", kind := .boolean, desc := some "当前是否选中，可用来设置默认选中",
      defaultValue := some "false" },
    { name := "color", kind := .string, desc := some "checkbox的颜色，同css的color",
      defaultValue := some "#09BB07" }]

def form : Component where
  name := "form"
  desc := some "表单。将组件内的用户输入的 switch input checkbox slider radio picker 提交"
  docLink := some "https://developers.weixin.qq.com/miniprogram/dev/component/form.html"
  attributes := [
    { name := "report-submit", kind := .boolean, desc := some "是否返回 formId 用于发送模板消息",
      defaultValue := some "false" },
    { name := "bindsubmit", kind := .function, desc := some "携带 form 中的数据触发 submit 事件" },
    { name := "bindreset", kind := .function, desc := some "表单重置时会触发 reset 事件" }]

def input : Component where
  name := "input"
  desc := some "输入框"
  docLink := some "https://developers.weixin.qq.com/miniprogram/dev/component/input.html"
  attributes := [
    { name := "value", kind := .string, desc := some "输入框的初始内容" },
    { name := "type", kind := .enum [
        { value := "text", desc := some "文本输入键盘" },
        { value := "number", desc := some "数字输入键盘" },
        { value := "idcard", desc := some "身份证输入键盘" },
        { value := "digit", desc := some "带小数点的数字键盘" },
        { value := "nickname", desc := some "昵称输入键盘" }], desc := some "input 的类型",
      defaultValue := some "text" },
    { name := "password", kind := .boolean, desc := some "是否是密码类型",
      defaultValue := some "false" },
    { name := "placeholder", kind := .string, desc := some "输入框为空时占位符" },
    { name := "placeholder-style", kind := .string, desc := some "指定 placeholder 的样式" },
    { name := "placeholder-class", kind := .string, desc := some "指定 placeholder 的样式类",
      defaultValue := some "input-placeholder" },
    { name := "disabled", kind := .boolean, desc := some "是否禁用", defaultValue := some "false" },
    { name := "maxlength", kind := .number, desc := some "最大输入长度，设置为 -1 的时候不限制最大长度",
      defaultValue := some "140" },
    { name := "cursor-spacing", kind := .number, desc := some "指定光标与键盘的距离，单位 px",
      defaultValue := some "0" },
    { name := "auto-focus", kind := .boolean, desc := some "(即将废弃，请直接使用 focus )自动聚焦，拉起键盘",
      defaultValue := some "false" },
    { name := "focus", kind := .boolean, desc := some "获取焦点", defaultValue := some "false" },
    { name := "confirm-type", kind := .enum [
        { value := "send", desc := some "右下角按钮为“发送”" },
        { value := "search", desc := some "右下角按钮为“搜索”" },
        { value := "next", desc := some "右下角按钮为“下一个”" },
        { value := "go", desc := some "右下角按钮为“前往”" },
        { value := "done", desc := some "右下角按钮为“完成”" }],
      desc := some "设置键盘右下角按钮的文字，仅在type='text'时生效", defaultValue := some "done" },
    { name := "confirm-hold", kind := .boolean, desc := some "点击键盘右下角按钮时是否保持键盘不收起",
      defaultValue := some "false" },
    { name := "cursor", kind := .number, desc := some "指定focus时的光标位置" },
    { name := "selection-start", kind := .number,
      desc := some "光标起始位置，自动聚集时有效，需与selection-end搭配使用", defaultValue := some "-1" },
    { name := "selection-end", kind := .number,
      desc := some "光标结束位置，自动聚集时有效，需与selection-start搭配使用", defaultValue := some "-1" },
    { name := "adjust-position", kind := .boolean, desc := some "键盘弹起时，是否自动上推页面",
      defaultValue := some "true" },
    { name := "name", kind := .string, desc := some "表单字段名" },
    { name := "bindinput", kind := .function, desc := some "键盘输入时触发" },
    { name := "bindfocus", kind := .function, desc := some "输入框聚焦时触发" },
    { name := "bindblur", kind := .function, desc := some "输入框失去焦点时触发" },
    { name := "bindconfirm", kind := .function, desc := some "点击完成按钮时触发" },
    { name := "bindkeyboardheightchange", kind := .function, desc := some "键盘高度发生变化的时候触发此事件" }]

def label : Component where
  name := "label"
  desc := some "用来改进表单组件的可用性"
  docLink := some "https://developers.weixin.qq.com/miniprogram/dev/component/label.html"
  attributes := [
    { name := "for", kind := .string, desc := some "绑定控件的 id" }]

def picker : Component where
  name := "picker"
  desc := some "从底部弹起的滚动选择器"
  docLink := some "https://developers.weixin.qq.com/miniprogram/dev/component/picker.html"
  attributes := [
    { name := "mode", kind := .enum [
        { value := "selector", desc := some "普通选择器" },
        { value := "multiSelector", desc := some "多列选择器" },
        { value := "time", desc := some "时间选择器" },
        { value := "date", desc := some "日期选择器" },
        { value := "region", desc := some "省市区选择器" }], desc := some "选择器类型",
      defaultValue := some "selector", modes := [
        ("selector", [
          { name := "range", kind := .string,
            desc := some "mode为 selector 或 multiSelector 时，range 有效", defaultValue := some "[]" },
          { name := "range-key", kind := .string,
            desc := some "当 range 是一个 Object Array 时，通过 range-key 来指定 Object 中 key 的值作为选择器显示内容" },
          { name := "value", kind := .number, desc := some "value 的值表示选择了 range 中的第几个（下标从 0 开始）",
            defaultValue := some "0" },
          { name := "bindchange", kind := .function, desc := some "value 改变时触发 change 事件" }]),
        ("multiSelector", [
          { name := "range", kind := .string, desc := some "二维数组，长度表示多少列，数组的每项表示每列的数据",
            defaultValue := some "[]" },
          { name := "range-key", kind := .string,
            desc := some "当 range 是一个二维 Object Array 时，通过 range-key 来指定 Object 中 key 的值作为选择器显示内容" },
          { name := "value", kind := .string,
            desc := some "value 每一项的值表示选择了 range 对应项中的第几个（下标从 0 开始）", defaultValue := some "[]" },
          { name := "bindchange", kind := .function, desc := some "value 改变时触发 change 事件" },
          { name := "bindcolumnchange", kind := .function,
            desc := some "某一列的值改变时触发 columnchange 事件" }]),
        ("time", [
          { name := "value", kind := .string, desc := some "表示选中的时间，格式为\"hh:mm\"" },
          { name := "start", kind := .string, desc := some "表示有效时间范围的开始，字符串格式为\"hh:mm\"" },
          { name := "end", kind := .string, desc := some "表示有效时间范围的结束，字符串格式为\"hh:mm\"" },
          { name := "bindchange", kind := .function, desc := some "value 改变时触发 change 事件" }]),
        ("date", [
          { name := "value", kind := .string, desc := some "表示选中的日期，格式为\"YYYY-MM-DD\"",
            defaultValue := some "0" },
          { name := "start", kind := .string, desc := some "表示有效日期范围的开始，字符串格式为\"YYYY-MM-DD\"" },
          { name := "end", kind := .string, desc := some "表示有效日期范围的结束，字符串格式为\"YYYY-MM-DD\"" },
          { name := "fields", kind := .enum [
              { value := "year", desc := some "选择器粒度为年" },
              { value := "month", desc := some "选择器粒度为月份" },
              { value := "day", desc := some "选择器粒度为天" }],
            desc := some "有效值 year,month,day，表示选择器的粒度", defaultValue := some "day" },
          { name := "bindchange", kind := .function, desc := some "value 改变时触发 change 事件" }]),
        ("region", [
          { name := "value", kind := .string, desc := some "表示选中的省市区，默认选中每一列的第一个值",
            defaultValue := some "[]" },
          { name := "custom-item", kind := .string, desc := some "可为每一列的顶部添加一个自定义的项",
            defaultValue := some "", since := some "1.5.0" },
          { name := "level", kind := .enum [
              { value := "province", desc := some "省级选择器" },
              { value := "city", desc := some "市级选择器" },
              { value := "region", desc := some "区级选择器" },
              { value := "sub-district", desc := some "街道选择器" }], desc := some "选择器层级",
            defaultValue := some "region", since := some "2.21.1" },
          { name := "bindchange", kind := .function, desc := some "value 改变时触发 change 事件" }])] },
    { name := "disabled", kind := .boolean, desc := some "是否禁用", defaultValue := some "false" },
    { name := "bindcancel", kind := .function, desc := some "取消选择时触发" }]

def pickerView : Component where
  name := "picker-view"
  desc := some "嵌入页面的滚动选择器。其中只可放置 picker-view-column 组件"
  docLink := some "https://developers.weixin.qq.com/miniprogram/dev/component/picker-view.html"
  attributes := [
    { name := "value", kind := .string,
      desc := some "数组中的数字依次表示 picker-view 内的 picker-view-column 选择的第几项" },
    { name := "indicator-style", kind := .string, desc := some "设置选择器中间选中框的样式" },
    { name := "indicator-class", kind := .string, desc := some "设置选择器中间选中框的类名",
      defaultValue := some "", since := some "1.1.0" },
    { name := "mask-style", kind := .string, desc := some "设置蒙层的样式", defaultValue := some "",
      since := some "1.5.0" },
    { name := "mask-class", kind := .string, desc := some "设置蒙层的类名", defaultValue := some "",
      since := some "1.5.0" },
    { name := "bindchange", kind := .function, desc := some "滚动选择时触发change事件" },
    { name := "bindpickstart", kind := .function, desc := some "当滚动选择开始时候触发事件",
      since := some "2.3.1" },
    { name := "bindpickend", kind := .function, desc := some "当滚动选择结束时候触发事件",
      since := some "2.3.1" }]

def pickerViewColumn : Component where
  name := "picker-view-column"
  desc := some "滚动选择器子项。仅可放置于 picker-view 中"
  docLink := some "https://developers.weixin.qq.com/miniprogram/dev/component/picker-view-column.html"

def radioGroup : Component where
  name := "radio-group"
  desc := some "单项选择器，内部由多个 radio 组成"
  docLink := some "https://developers.weixin.qq.com/miniprogram/dev/component/radio-group.html"
  attributes := [
    { name := "bindchange", kind := .function, desc := some "radio-group 中选中项发生改变时触发 change 事件" }]

def radio : Component where
  name := "radio"
  desc := some "单选项目"
  docLink := some "https://developers.weixin.qq.com/miniprogram/dev/component/radio.html"
  attributes := [
    { name := "value", kind := .string, desc := some "radio 标识" },
    { name := "checked", kind := .boolean, desc := some "当前是否选中", defaultValue := some "false" },
    { name := "disabled", kind := .boolean, desc := some "是否禁用", defaultValue := some "false" },
    { name := "color", kind := .string, desc := some "radio的颜色，同css的color",
      defaultValue := some "#09BB07" }]

def slider : Component where
  name := "slider"
  desc := some "滑动选择器"
  docLink := some "https://developers.weixin.qq.com/miniprogram/dev/component/slider.html"
  attributes := [
    { name := "min", kind := .number, desc := some "最小值", defaultValue := some "0" },
    { name := "max", kind := .number, desc := some "最大值", defaultValue := some "100" },
    { name := "step", kind := .number, desc := some "步长，取值必须大于 0，并且可被(max - min)整除",
      defaultValue := some "1" },
    { name := "disabled", kind := .boolean, desc := some "是否禁用", defaultValue := some "false" },
    { name := "value", kind := .number, desc := some "当前取值", defaultValue := some "0" },
    { name := "activeColor", kind := .string, desc := some "已选择的颜色",
      defaultValue := some "#1aad19" },
    { name := "backgroundColor", kind := .string, desc := some "背景条的颜色",
      defaultValue := some "#e9e9e9" },
    { name := "block-size", kind := .number, desc := some "滑块的大小，取值范围为 12 - 28",
      defaultValue := some "28" },
    { name := "block-color", kind := .string, desc := some "滑块的颜色",
      defaultValue := some "#ffffff" },
    { name := "show-value", kind := .boolean, desc := some "是否显示当前 value",
      defaultValue := some "false" },
    { name := "bindchange", kind := .function, desc := some "完成一次拖动后触发的事件" },
    { name := "bindchanging", kind := .function, desc := some "拖动过程中触发的事件" }]

def switchElement : Component where
  name := "switch"
  desc := some "开关选择器"
  docLink := some "https://developers.weixin.qq.com/miniprogram/dev/component/switch.html"
  attributes := [
    { name := "checked", kind := .boolean, desc := some "是否选中", defaultValue := some "false" },
    { name := "disabled", kind := .boolean, desc := some "是否禁用", defaultValue := some "false" },
    { name := "type", kind := .enum [
        { value := "switch" },
        { value := "checkbox" }], desc := some "样式，有效值：switch, checkbox",
      defaultValue := some "switch" },
    { name := "color", kind := .string, desc := some "switch 的颜色，同 css 的 color",
      defaultValue := some "#04BE02" },
    { name := "bindchange", kind := .function, desc := some "checked 改变时触发 change 事件" }]

def textarea : Component where
  name := "textarea"
  desc := some "多行输入框"
  docLink := some "https://developers.weixin.qq.com/miniprogram/dev/component/textarea.html"
  attributes := [
    { name := "value", kind := .string, desc := some "输入框的内容" },
    { name := "placeholder", kind := .string, desc := some "输入框为空时占位符" },
    { name := "placeholder-style", kind := .string, desc := some "指定 placeholder 的样式" },
    { name := "placeholder-class", kind := .string, desc := some "指定 placeholder 的样式类",
      defaultValue := some "textarea-placeholder" },
    { name := "disabled", kind := .boolean, desc := some "是否禁用", defaultValue := some "false" },
    { name := "maxlength", kind := .number, desc := some "最大输入长度，设置为 -1 的时候不限制最大长度",
      defaultValue := some "140" },
    { name := "auto-focus", kind := .boolean, desc := some "自动聚焦，拉起键盘",
      defaultValue := some "false" },
    { name := "focus", kind := .boolean, desc := some "获取焦点", defaultValue := some "false" },
    { name := "auto-height", kind := .boolean,
      desc := some "是否自动增高，设置auto-height时，style.height不生效", defaultValue := some "false" },
    { name := "fixed", kind := .boolean,
      desc := some "如果 textarea 是在一个 position:fixed 的区域，需要显示指定属性 fixed 为 true",
      defaultValue := some "false" },
    { name := "cursor-spacing", kind := .number, desc := some "指定光标与键盘的距离，单位 px",
      defaultValue := some "0" },
    { name := "cursor", kind := .number, desc := some "指定focus时的光标位置" },
    { name := "show-confirm-bar", kind := .boolean, desc := some "是否显示键盘上方带有”完成“按钮那一栏",
      defaultValue := some "true" },
    { name := "selection-start", kind := .number, desc := some "光标起始位置，自动聚集时有效",
      defaultValue := some "-1" },
    { name := "selection-end", kind := .number, desc := some "光标结束位置，自动聚集时有效",
      defaultValue := some "-1" },
    { name := "adjust-position", kind := .boolean, desc := some "键盘弹起时，是否自动上推页面",
      defaultValue := some "true" },
    { name := "name", kind := .string, desc := some "表单字段名" },
    { name := "bindfocus", kind := .function, desc := some "输入框聚焦时触发" },
    { name := "bindblur", kind := .function, desc := some "输入框失去焦点时触发" },
    { name := "bindlinechange", kind := .function, desc := some "输入框行数变化时调用" },
    { name := "bindinput", kind := .function, desc := some "当键盘输入时，触发 input 事件" },
    { name := "bindconfirm", kind := .function, desc := some "点击完成时， 触发 confirm 事件" }]

end PageMarkup.Schema.Components
