import PageMarkup.Schema.Basic

/-! Maps, canvases and open data. -/

namespace PageMarkup.Schema.Components

def mapElement : Component where
  name := "map"
  desc := some "地图"
  docLink := some "https://developers.weixin.qq.com/miniprogram/dev/component/map.html"
  attributes := [
    { name := "longitude", kind := .number, desc := some "中心经度" },
    { name := "latitude", kind := .number, desc := some "中心纬度" },
    { name := "scale", kind := .number, desc := some "缩放级别，取值范围为3-20",
      defaultValue := some "16" },
    { name := "markers", kind := .string, desc := some "标记点" },
    { name := "polyline", kind := .string, desc := some "路线" },
    { name := "circles", kind := .string, desc := some "圆" },
    { name := "controls", kind := .string, desc := some "控件（即将废弃，建议使用 cover-view 代替）" },
    { name := "include-points", kind := .string, desc := some "缩放视野以包含所有给定的坐标点" },
    { name := "show-location", kind := .boolean, desc := some "显示带有方向的当前定位点",
      defaultValue := some "false" },
    { name := "polygons", kind := .string, desc := some "多边形", defaultValue := some "",
      since := some "2.3.0" },
    { name := "subkey", kind := .string, desc := some "个性化地图使用的key", defaultValue := some "",
      since := some "2.3.0" },
    { name := "enable-3D", kind := .boolean, desc := some "展示3D楼块", defaultValue := some "false",
      since := some "2.3.0" },
    { name := "show-compass", kind := .boolean, desc := some "显示指南针",
      defaultValue := some "false", since := some "2.3.0" },
    { name := "enable-zoom", kind := .boolean, desc := some "是否支持缩放",
      defaultValue := some "true", since := some "2.3.0" },
    { name := "enable-scroll", kind := .boolean, desc := some "是否支持拖动",
      defaultValue := some "true", since := some "2.3.0" },
    { name := "enable-rotate", kind := .boolean, desc := some "是否支持旋转",
      defaultValue := some "false", since := some "2.3.0" },
    { name := "bindmarkertap", kind := .function, desc := some "点击标记点时触发" },
    { name := "bindcallouttap", kind := .function, desc := some "点击标记点对应的气泡时触发" },
    { name := "bindcontroltap", kind := .function, desc := some "点击控件时触发" },
    { name := "bindregionchange", kind := .function, desc := some "视野发生变化时触发" },
    { name := "bindtap", kind := .function, desc := some "点击地图时触发" },
    { name := "bindupdated", kind := .function, desc := some "在地图渲染更新完成时触发",
      since := some "1.6.0" }]

def canvas : Component where
  name := "canvas"
  desc := some "画布"
  docLink := some "https://developers.weixin.qq.com/miniprogram/dev/component/canvas.html"
  attributes := [
    { name := "type", kind := .enum [
        { value := "2d", desc := some "Canvas 2D" },
        { value := "webgl", desc := some "WebGL" }], desc := some "指定 canvas 类型",
      since := some "2.7.0" },
    { name := "canvas-id", kind := .string, desc := some "canvas 组件的唯一标识符，若指定了 type 则无需再指定该属性" },
    { name := "disable-scroll", kind := .boolean,
      desc := some "当在 canvas 中移动时且有绑定手势事件时，禁止屏幕滚动以及下拉刷新", defaultValue := some "false" },
    { name := "bindtouchstart", kind := .function, desc := some "手指触摸动作开始" },
    { name := "bindtouchmove", kind := .function, desc := some "手指触摸后移动" },
    { name := "bindtouchend", kind := .function, desc := some "手指触摸动作结束" },
    { name := "bindtouchcancel", kind := .function, desc := some "手指触摸动作被打断" },
    { name := "bindlongtap", kind := .function, desc := some "手指长按 500ms 之后触发" },
    { name := "binderror", kind := .function, desc := some "当发生错误时触发 error 事件" }]

def openData : Component where
  name := "open-data"
  desc := some "用于展示微信开放的数据"
  docLink := some "https://developers.weixin.qq.com/miniprogram/dev/component/open-data.html"
  attributes := [
    { name := "type", kind := .enum [
        { value := "groupName", desc := some "拉取群名称" },
        { value := "userNickName", desc := some "用户昵称" },
        { value := "userAvatarUrl", desc := some "用户头像" },
        { value := "userGender", desc := some "用户性别" },
        { value := "userCity", desc := some "用户所在城市" },
        { value := "userProvince", desc := some "用户所在省份" },
        { value := "userCountry", desc := some "用户所在国家" },
        { value := "userLanguage", desc := some "用户的语言" }], desc := some "开放数据类型" },
    { name := "open-gid", kind := .string, desc := some "当 type=\"groupName\" 时生效, 群id" },
    { name := "lang", kind := .enum [
        { value := "en", desc := some "英文" },
        { value := "zh_CN", desc := some "简体中文" },
        { value := "zh_TW", desc := some "繁体中文" }],
      desc := some "当 type=\"user*\" 时生效，以哪种语言展示 userInfo", defaultValue := some "en" }]

def webView : Component where
  name := "web-view"
  desc := some "承载网页的容器。会自动铺满整个小程序页面"
  docLink := some "https://developers.weixin.qq.com/miniprogram/dev/component/web-view.html"
  attributes := [
    { name := "src", kind := .string, desc := some "webview 指向网页的链接" },
    { name := "bindmessage", kind := .function,
      desc := some "网页向小程序 postMessage 时，会在特定时机触发并收到消息" },
    { name := "bindload", kind := .function, desc := some "网页加载成功时候触发此事件",
      since := some "1.6.4" },
    { name := "binderror", kind := .function, desc := some "网页加载失败的时候触发此事件",
      since := some "1.6.4" }]

end PageMarkup.Schema.Components
