import PageMarkup.Schema.Basic

/-! Navigation, pictures, sound and video. -/

namespace PageMarkup.Schema.Components

def navigator : Component where
  name := "navigator"
  desc := some "页面链接"
  docLink := some "https://developers.weixin.qq.com/miniprogram/dev/component/navigator.html"
  attributes := [
    { name := "target", kind := .enum [
        { value := "self", desc := some "当前小程序" },
        { value := "miniProgram", desc := some "其它小程序" }], desc := some "在哪个目标上发生跳转，默认当前小程序",
      defaultValue := some "self", since := some "2.0.7" },
    { name := "url", kind := .string, desc := some "当前小程序内的跳转链接" },
    { name := "open-type", kind := .enum [
        { value := "navigate", desc := some "对应 wx.navigateTo" },
        { value := "redirect", desc := some "对应 wx.redirectTo" },
        { value := "switchTab", desc := some "对应 wx.switchTab" },
        { value := "reLaunch", desc := some "对应 wx.reLaunch" },
        { value := "navigateBack", desc := some "对应 wx.navigateBack" },
        { value := "exit", desc := some "退出小程序" }], desc := some "跳转方式",
      defaultValue := some "navigate" },
    { name := "delta", kind := .number, desc := some "当 open-type 为 'navigateBack' 时有效，表示回退的层数" },
    { name := "app-id", kind := .string,
      desc := some "当target=\"miniProgram\"时有效，要打开的小程序 appId" },
    { name := "path", kind := .string,
      desc := some "当target=\"miniProgram\"时有效，打开的页面路径，如果为空则打开首页" },
    { name := "extra-data", kind := .string,
      desc := some "当target=\"miniProgram\"时有效，需要传递给目标小程序的数据" },
    { name := "version", kind := .enum [
        { value := "develop", desc := some "开发版" },
        { value := "trial", desc := some "体验版" },
        { value := "release", desc := some "正式版" }],
      desc := some "当target=\"miniProgram\"时有效，要打开的小程序版本", defaultValue := some "release" },
    { name := "hover-class", kind := .string, desc := some "指定点击时的样式类",
      defaultValue := some "navigator-hover" },
    { name := "hover-stop-propagation", kind := .boolean, desc := some "指定是否阻止本节点的祖先节点出现点击态",
      defaultValue := some "false" },
    { name := "hover-start-time", kind := .number, desc := some "按住后多久出现点击态，单位毫秒",
      defaultValue := some "50" },
    { name := "hover-stay-time", kind := .number, desc := some "手指松开后点击态保留时间，单位毫秒",
      defaultValue := some "600" },
    { name := "bindsuccess", kind := .function,
      desc := some "当target=\"miniProgram\"时有效，跳转小程序成功" },
    { name := "bindfail", kind := .function, desc := some "当target=\"miniProgram\"时有效，跳转小程序失败" },
    { name := "bindcomplete", kind := .function,
      desc := some "当target=\"miniProgram\"时有效，跳转小程序完成" }]

def audio : Component where
  name := "audio"
  desc := some "音频"
  docLink := some "https://developers.weixin.qq.com/miniprogram/dev/component/audio.html"
  attributes := [
    { name := "id", kind := .string, desc := some "audio 组件的唯一标识符" },
    { name := "src", kind := .string, desc := some "要播放音频的资源地址" },
    { name := "loop", kind := .boolean, desc := some "是否循环播放", defaultValue := some "false" },
    { name := "controls", kind := .boolean, desc := some "是否显示默认控件",
      defaultValue := some "false" },
    { name := "poster", kind := .string, desc := some "默认控件上的音频封面的图片资源地址" },
    { name := "name", kind := .string, desc := some "默认控件上的音频名字", defaultValue := some "未知音频" },
    { name := "author", kind := .string, desc := some "默认控件上的作者名字", defaultValue := some "未知作者" },
    { name := "binderror", kind := .function, desc := some "当发生错误时触发 error 事件" },
    { name := "bindplay", kind := .function, desc := some "当开始/继续播放时触发play事件" },
    { name := "bindpause", kind := .function, desc := some "当暂停播放时触发 pause 事件" },
    { name := "bindtimeupdate", kind := .function, desc := some "当播放进度改变时触发 timeupdate 事件" },
    { name := "bindended", kind := .function, desc := some "当播放到末尾时触发 ended 事件" }]

def image : Component where
  name := "image"
  desc := some "图片"
  docLink := some "https://developers.weixin.qq.com/miniprogram/dev/component/image.html"
  tips := [
    "image 组件默认宽度 320px、高度 240px"]
  attributes := [
    { name := "src", kind := .string, desc := some "图片资源地址" },
    { name := "mode", kind := .enum [
        { value := "scaleToFill", desc := some "不保持纵横比缩放图片，使图片的宽高完全拉伸至填满 image 元素" },
        { value := "aspectFit", desc := some "保持纵横比缩放图片，使图片的长边能完全显示出来" },
        { value := "aspectFill", desc := some "保持纵横比缩放图片，只保证图片的短边能完全显示出来" },
        { value := "widthFix", desc := some "宽度不变，高度自动变化，保持原图宽高比不变" },
        { value := "heightFix", desc := some "高度不变，宽度自动变化，保持原图宽高比不变" },
        { value := "top", desc := some "不缩放图片，只显示图片的顶部区域" },
        { value := "bottom", desc := some "不缩放图片，只显示图片的底部区域" },
        { value := "center", desc := some "不缩放图片，只显示图片的中间区域" },
        { value := "left", desc := some "不缩放图片，只显示图片的左边区域" },
        { value := "right", desc := some "不缩放图片，只显示图片的右边区域" },
        { value := "top left", desc := some "不缩放图片，只显示图片的左上边区域" },
        { value := "top right", desc := some "不缩放图片，只显示图片的右上边区域" },
        { value := "bottom left", desc := some "不缩放图片，只显示图片的左下边区域" },
        { value := "bottom right", desc := some "不缩放图片，只显示图片的右下边区域" }],
      desc := some "图片裁剪、缩放的模式", defaultValue := some "scaleToFill" },
    { name := "webp", kind := .boolean, desc := some "默认不解析 webP 格式，只支持网络资源",
      defaultValue := some "false", since := some "2.9.0" },
    { name := "lazy-load", kind := .boolean, desc := some "图片懒加载，在即将进入一定范围（上下三屏）时才开始加载",
      defaultValue := some "false" },
    { name := "show-menu-by-longpress", kind := .boolean, desc := some "开启长按图片显示识别小程序码菜单",
      defaultValue := some "false", since := some "2.7.0" },
    { name := "binderror", kind := .function, desc := some "当错误发生时触发" },
    { name := "bindload", kind := .function, desc := some "当图片载入完毕时触发" }]

def video : Component where
  name := "video"
  desc := some "视频"
  docLink := some "https://developers.weixin.qq.com/miniprogram/dev/component/video.html"
  attributes := [
    { name := "src", kind := .string, desc := some "要播放视频的资源地址，支持云文件ID" },
    { name := "duration", kind := .number, desc := some "指定视频时长", defaultValue := some "",
      since := some "1.1.0" },
    { name := "controls", kind := .boolean, desc := some "是否显示默认播放控件（播放/暂停按钮、播放进度、时间）",
      defaultValue := some "true" },
    { name := "danmu-list", kind := .string, desc := some "弹幕列表" },
    { name := "danmu-btn", kind := .boolean, desc := some "是否显示弹幕按钮，只在初始化时有效，不能动态变更",
      defaultValue := some "false" },
    { name := "enable-danmu", kind := .boolean, desc := some "是否展示弹幕，只在初始化时有效，不能动态变更",
      defaultValue := some "false" },
    { name := "autoplay", kind := .boolean, desc := some "是否自动播放", defaultValue := some "false" },
    { name := "loop", kind := .boolean, desc := some "是否循环播放", defaultValue := some "false",
      since := some "1.4.0" },
    { name := "muted", kind := .boolean, desc := some "是否静音播放", defaultValue := some "false",
      since := some "1.4.0" },
    { name := "initial-time", kind := .number, desc := some "指定视频初始播放位置",
      defaultValue := some "", since := some "1.6.0" },
    { name := "direction", kind := .enum [
        { value := "0", desc := some "正常竖向" },
        { value := "90", desc := some "屏幕逆时针90度" },
        { value := "-90", desc := some "屏幕顺时针90度" }], desc := some "设置全屏时视频的方向，不指定则根据宽高比自动判断",
      since := some "1.7.0" },
    { name := "show-progress", kind := .boolean, desc := some "若不设置，宽度大于240时才会显示",
      defaultValue := some "true", since := some "1.9.0" },
    { name := "show-fullscreen-btn", kind := .boolean, desc := some "是否显示全屏按钮",
      defaultValue := some "true", since := some "1.9.0" },
    { name := "show-play-btn", kind := .boolean, desc := some "是否显示视频底部控制栏的播放按钮",
      defaultValue := some "true", since := some "1.9.0" },
    { name := "show-center-play-btn", kind := .boolean, desc := some "是否显示视频中间的播放按钮",
      defaultValue := some "true", since := some "1.9.0" },
    { name := "enable-progress-gesture", kind := .boolean, desc := some "是否开启控制进度的手势",
      defaultValue := some "true", since := some "1.9.0" },
    { name := "object-fit", kind := .enum [
        { value := "contain", desc := some "包含" },
        { value := "fill", desc := some "填充" },
        { value := "cover", desc := some "覆盖" }], desc := some "当视频大小与 video 容器大小不一致时，视频的表现形式",
      defaultValue := some "contain" },
    { name := "poster", kind := .string, desc := some "视频封面的图片网络资源地址或云文件ID" },
    { name := "bindplay", kind := .function, desc := some "当开始/继续播放时触发play事件" },
    { name := "bindpause", kind := .function, desc := some "当暂停播放时触发 pause 事件" },
    { name := "bindended", kind := .function, desc := some "当播放到末尾时触发 ended 事件" },
    { name := "bindtimeupdate", kind := .function, desc := some "播放进度变化时触发" },
    { name := "bindfullscreenchange", kind := .function, desc := some "视频进入和退出全屏时触发" },
    { name := "bindwaiting", kind := .function, desc := some "视频出现缓冲时触发", since := some "1.7.0" },
    { name := "binderror", kind := .function, desc := some "视频播放出错时触发", since := some "1.7.0" }]

def camera : Component where
  name := "camera"
  desc := some "系统相机"
  docLink := some "https://developers.weixin.qq.com/miniprogram/dev/component/camera.html"
  attributes := [
    { name := "mode", kind := .enum [
        { value := "normal", desc := some "相机模式" },
        { value := "scanCode", desc := some "扫码模式" }], desc := some "应用模式，只在初始化时有效，不能动态变更",
      defaultValue := some "normal", since := some "2.1.0" },
    { name := "device-position", kind := .enum [
        { value := "front", desc := some "前置" },
        { value := "back", desc := some "后置" }], desc := some "摄像头朝向",
      defaultValue := some "back" },
    { name := "flash", kind := .enum [
        { value := "auto", desc := some "自动" },
        { value := "on", desc := some "打开" },
        { value := "off", desc := some "关闭" },
        { value := "torch", desc := some "常亮" }], desc := some "闪光灯",
      defaultValue := some "auto" },
    { name := "frame-size", kind := .enum [
        { value := "small", desc := some "小尺寸帧数据" },
        { value := "medium", desc := some "中尺寸帧数据" },
        { value := "large", desc := some "大尺寸帧数据" }], desc := some "指定期望的相机帧数据尺寸",
      defaultValue := some "medium", since := some "2.7.0" },
    { name := "bindstop", kind := .function, desc := some "摄像头在非正常终止时触发，如退出后台等情况" },
    { name := "binderror", kind := .function, desc := some "用户不允许使用摄像头时触发" },
    { name := "bindinitdone", kind := .function, desc := some "相机初始化完成时触发",
      since := some "2.7.0" },
    { name := "bindscancode", kind := .function,
      desc := some "在扫码识别成功时触发，仅在 mode=\"scanCode\" 时生效", since := some "2.1.0" }]

def livePlayer : Component where
  name := "live-player"
  desc := some "实时音视频播放"
  docLink := some "https://developers.weixin.qq.com/miniprogram/dev/component/live-player.html"
  attributes := [
    { name := "src", kind := .string, desc := some "音视频地址。目前仅支持 flv, rtmp 格式" },
    { name := "mode", kind := .enum [
        { value := "live", desc := some "直播" },
        { value := "RTC", desc := some "实时通话，该模式时延更低" }], desc := some "模式",
      defaultValue := some "live" },
    { name := "autoplay", kind := .boolean, desc := some "自动播放", defaultValue := some "false" },
    { name := "muted", kind := .boolean, desc := some "是否静音", defaultValue := some "false" },
    { name := "orientation", kind := .enum [
        { value := "vertical", desc := some "竖直" },
        { value := "horizontal", desc := some "水平" }], desc := some "画面方向",
      defaultValue := some "vertical" },
    { name := "object-fit", kind := .enum [
        { value := "contain", desc := some "图像长边填满屏幕，短边区域会被填充⿊⾊" },
        { value := "fillCrop", desc := some "图像铺满屏幕，超出显示区域的部分将被截掉" }], desc := some "填充模式",
      defaultValue := some "contain" },
    { name := "min-cache", kind := .number, desc := some "最小缓冲区，单位s", defaultValue := some "1" },
    { name := "max-cache", kind := .number, desc := some "最大缓冲区，单位s", defaultValue := some "3" },
    { name := "bindstatechange", kind := .function, desc := some "播放状态变化事件" },
    { name := "bindfullscreenchange", kind := .function, desc := some "全屏变化事件" },
    { name := "bindnetstatus", kind := .function, desc := some "网络状态通知", since := some "1.9.0" }]

def livePusher : Component where
  name := "live-pusher"
  desc := some "实时音视频录制"
  docLink := some "https://developers.weixin.qq.com/miniprogram/dev/component/live-pusher.html"
  attributes := [
    { name := "url", kind := .string, desc := some "推流地址。目前仅支持 rtmp 格式" },
    { name := "mode", kind := .enum [
        { value := "SD", desc := some "标清" },
        { value := "HD", desc := some "高清" },
        { value := "FHD", desc := some "超清" },
        { value := "RTC", desc := some "实时通话" }], desc := some "模式", defaultValue := some "RTC" },
    { name := "autopush", kind := .boolean, desc := some "自动推流", defaultValue := some "false" },
    { name := "muted", kind := .boolean, desc := some "是否静音", defaultValue := some "false" },
    { name := "enable-camera", kind := .boolean, desc := some "开启摄像头",
      defaultValue := some "true" },
    { name := "auto-focus", kind := .boolean, desc := some "自动聚集", defaultValue := some "true" },
    { name := "orientation", kind := .enum [
        { value := "vertical", desc := some "竖直" },
        { value := "horizontal", desc := some "水平" }], desc := some "画面方向",
      defaultValue := some "vertical" },
    { name := "beauty", kind := .number, desc := some "美颜，取值范围 0-9 ，0 表示关闭",
      defaultValue := some "0" },
    { name := "whiteness", kind := .number, desc := some "美白，取值范围 0-9 ，0 表示关闭",
      defaultValue := some "0" },
    { name := "aspect", kind := .enum [
        { value := "3:4" },
        { value := "9:16" }], desc := some "宽高比", defaultValue := some "9:16" },
    { name := "device-position", kind := .enum [
        { value := "front", desc := some "前置" },
        { value := "back", desc := some "后置" }], desc := some "前置或后置",
      defaultValue := some "front", since := some "2.3.0" },
    { name := "bindstatechange", kind := .function, desc := some "状态变化事件" },
    { name := "bindnetstatus", kind := .function, desc := some "网络状态通知", since := some "1.9.0" },
    { name := "binderror", kind := .function, desc := some "渲染错误事件", since := some "1.7.4" }]

end PageMarkup.Schema.Components
