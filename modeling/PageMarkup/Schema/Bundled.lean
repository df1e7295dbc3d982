import PageMarkup.Schema.Components.Container
import PageMarkup.Schema.Components.Content
import PageMarkup.Schema.Components.Form
import PageMarkup.Schema.Components.Media
import PageMarkup.Schema.Components.Canvas
import PageMarkup.Schema.Components.Structure
import PageMarkup.Schema.Codec

/-!
# The bundled schema

The components that come with the platform, in the order of their documentation.
-/

namespace PageMarkup.Schema

open Components

def bundledComponents : List Component :=
  [view, scrollView, swiper, swiperItem, movableArea, movableView, coverView, coverImage, icon,
    text, richText, progress, button, checkboxGroup, checkbox, form, input, label, picker,
    pickerView, pickerViewColumn, radioGroup, radio, slider, switchElement, textarea, navigator,
    audio, image, video, camera, livePlayer, livePusher, mapElement, canvas, openData, webView,
    block, template, importElement, includeElement, slot]

def bundled : Schema :=
  ofComponents bundledComponents

end PageMarkup.Schema
