import PageMarkup.Schema.Basic

/-! View containers. -/

namespace PageMarkup.Schema.Components

def view : Component where
  name := "view"
  desc := some "视图容器"
  docLink := some "https://developers.weixin.qq.com/miniprogram/dev/component/view.html"
  attributes := [
    { name := "hover-class", kind := .string,
      desc := some "指定按下去的样式类。当 hover-class=\"none\" 时，没有点击态效果", defaultValue := some "none" },
    { name := "hover-stop-propagation", kind := .boolean, desc := some "指定是否阻止本节点的祖先节点出现点击态",
      defaultValue := some "false", since := some "1.5.0" },
    { name := "hover-start-time", kind := .number, desc := some "按住后多久出现点击态，单位毫秒",
      defaultValue := some "50" },
    { name := "hover-stay-time", kind := .number, desc := some "手指松开后点击态保留时间，单位毫秒",
      defaultValue := some "400" }]

def scrollView : Component where
  name := "scroll-view"
  desc := some "可滚动视图区域。使用竖向滚动时，需要给 scroll-view 一个固定高度"
  docLink := some "https://developers.weixin.qq.com/miniprogram/dev/component/scroll-view.html"
  tips := [
    "请勿在 scroll-view 中使用 textarea、map、canvas、video 组件"]
  attributes := [
    { name := "scroll-x", kind := .boolean, desc := some "允许横向滚动", defaultValue := some "false" },
    { name := "scroll-y", kind := .boolean, desc := some "允许纵向滚动", defaultValue := some "false" },
    { name := "upper-threshold", kind := .number, desc := some "距顶部/左边多远时，触发 scrolltoupper 事件",
      defaultValue := some "50" },
    { name := "lower-threshold", kind := .number, desc := some "距底部/右边多远时，触发 scrolltolower 事件",
      defaultValue := some "50" },
    { name := "scroll-top", kind := .number, desc := some "设置竖向滚动条位置" },
    { name := "scroll-left", kind := .number, desc := some "设置横向滚动条位置" },
    { name := "scroll-into-view", kind := .string,
      desc := some "值应为某子元素 id（id 不能以数字开头）。设置哪个方向可滚动，则在哪个方向滚动到该元素" },
    { name := "scroll-with-animation", kind := .boolean, desc := some "在设置滚动条位置时使用动画过渡",
      defaultValue := some "false" },
    { name := "enable-back-to-top", kind := .boolean,
      desc := some "iOS 点击顶部状态栏、安卓双击标题栏时，滚动条返回顶部，只支持竖向", defaultValue := some "false" },
    { name := "enable-flex", kind := .boolean, desc := some "启用 flexbox 布局",
      defaultValue := some "false", since := some "2.7.3" },
    { name := "bindscrolltoupper", kind := .function, desc := some "滚动到顶部/左边时触发" },
    { name := "bindscrolltolower", kind := .function, desc := some "滚动到底部/右边时触发" },
    { name := "bindscroll", kind := .function, desc := some "滚动时触发" }]

def swiper : Component where
  name := "swiper"
  desc := some "滑块视图容器。其中只可放置 swiper-item 组件"
  docLink := some "https://developers.weixin.qq.com/miniprogram/dev/component/swiper.html"
  attributes := [
    { name := "indicator-dots", kind := .boolean, desc := some "是否显示面板指示点",
      defaultValue := some "false" },
    { name := "indicator-color", kind := .string, desc := some "指示点颜色",
      defaultValue := some "rgba(0, 0, 0, .3)" },
    { name := "indicator-active-color", kind := .string, desc := some "当前选中的指示点颜色",
      defaultValue := some "#000000" },
    { name := "autoplay", kind := .boolean, desc := some "是否自动切换", defaultValue := some "false" },
    { name := "current", kind := .number, desc := some "当前所在滑块的 index",
      defaultValue := some "0" },
    { name := "interval", kind := .number, desc := some "自动切换时间间隔", defaultValue := some "5000" },
    { name := "duration", kind := .number, desc := some "滑动动画时长", defaultValue := some "500" },
    { name := "circular", kind := .boolean, desc := some "是否采用衔接滑动",
      defaultValue := some "false" },
    { name := "vertical", kind := .boolean, desc := some "滑动方向是否为纵向",
      defaultValue := some "false" },
    { name := "previous-margin", kind := .string, desc := some "前边距，可用于露出前一项的一小部分",
      defaultValue := some "0px" },
    { name := "next-margin", kind := .string, desc := some "后边距，可用于露出后一项的一小部分",
      defaultValue := some "0px" },
    { name := "display-multiple-items", kind := .number, desc := some "同时显示的滑块数量",
      defaultValue := some "1" },
    { name := "easing-function", kind := .enum [
        { value := "default", desc := some "默认缓动函数" },
        { value := "linear", desc := some "线性动画" },
        { value := "easeInCubic", desc := some "缓入动画" },
        { value := "easeOutCubic", desc := some "缓出动画" },
        { value := "easeInOutCubic", desc := some "缓入缓出动画" }], desc := some "指定 swiper 切换缓动动画类型",
      defaultValue := some "default", since := some "2.6.5" },
    { name := "bindchange", kind := .function, desc := some "current 改变时会触发 change 事件" },
    { name := "bindtransition", kind := .function,
      desc := some "swiper-item 的位置发生改变时会触发 transition 事件" },
    { name := "bindanimationfinish", kind := .function,
      desc := some "动画结束时会触发 animationfinish 事件" }]

def swiperItem : Component where
  name := "swiper-item"
  desc := some "仅可放置在 swiper 组件中，宽高自动设置为100%"
  docLink := some "https://developers.weixin.qq.com/miniprogram/dev/component/swiper-item.html"
  attributes := [
    { name := "item-id", kind := .string, desc := some "该 swiper-item 的标识符" }]

def movableArea : Component where
  name := "movable-area"
  desc := some "movable-view 的可移动区域"
  docLink := some "https://developers.weixin.qq.com/miniprogram/dev/component/movable-area.html"
  attributes := [
    { name := "scale-area", kind := .boolean,
      desc := some "当里面的 movable-view 设置为支持双指缩放时，设置此值可将缩放手势生效区域修改为整个 movable-area",
      defaultValue := some "false" }]

def movableView : Component where
  name := "movable-view"
  desc := some "可移动的视图容器，在页面中可以拖拽滑动。movable-view 必须在 movable-area 组件中"
  docLink := some "https://developers.weixin.qq.com/miniprogram/dev/component/movable-view.html"
  attributes := [
    { name := "direction", kind := .enum [
        { value := "all" },
        { value := "vertical" },
        { value := "horizontal" },
        { value := "none" }], desc := some "movable-view 的移动方向", defaultValue := some "none" },
    { name := "inertia", kind := .boolean, desc := some "movable-view 是否带有惯性",
      defaultValue := some "false" },
    { name := "out-of-bounds", kind := .boolean, desc := some "超过可移动区域后，movable-view 是否还可以移动",
      defaultValue := some "false" },
    { name := "x", kind := .number, desc := some "定义 x 轴方向的偏移" },
    { name := "y", kind := .number, desc := some "定义 y 轴方向的偏移" },
    { name := "damping", kind := .number, desc := some "阻尼系数，用于控制 x 或 y 改变时的动画和过界回弹的动画",
      defaultValue := some "20" },
    { name := "friction", kind := .number, desc := some "摩擦系数，用于控制惯性滑动的动画",
      defaultValue := some "2" },
    { name := "disabled", kind := .boolean, desc := some "是否禁用", defaultValue := some "false" },
    { name := "scale", kind := .boolean, desc := some "是否支持双指缩放", defaultValue := some "false" },
    { name := "scale-min", kind := .number, desc := some "定义缩放倍数最小值",
      defaultValue := some "0.5" },
    { name := "scale-max", kind := .number, desc := some "定义缩放倍数最大值", defaultValue := some "10" },
    { name := "scale-value", kind := .number, desc := some "定义缩放倍数，取值范围为 0.5 - 10",
      defaultValue := some "1" },
    { name := "bindchange", kind := .function, desc := some "拖动过程中触发的事件" },
    { name := "bindscale", kind := .function, desc := some "缩放过程中触发的事件" }]

def coverView : Component where
  name := "cover-view"
  desc := some "覆盖在原生组件之上的文本视图"
  docLink := some "https://developers.weixin.qq.com/miniprogram/dev/component/cover-view.html"
  attributes := [
    { name := "scroll-top", kind := .number,
      desc := some "设置顶部滚动偏移量，仅在设置了 overflow-y: scroll 成为滚动元素后生效", since := some "2.1.0" }]

def coverImage : Component where
  name := "cover-image"
  desc := some "覆盖在原生组件之上的图片视图"
  docLink := some "https://developers.weixin.qq.com/miniprogram/dev/component/cover-image.html"
  attributes := [
    { name := "src", kind := .string, desc := some "图标路径，支持临时路径、网络地址、云文件ID" },
    { name := "bindload", kind := .function, desc := some "图片加载成功时触发" },
    { name := "binderror", kind := .function, desc := some "图片加载失败时触发" }]

end PageMarkup.Schema.Components
