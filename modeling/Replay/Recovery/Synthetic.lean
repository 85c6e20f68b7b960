import Replay.Script
import Replay.Xml.Entity
import Replay.Xml.Repair
set_option autoImplicit false

namespace Replay.Recovery

def defaultBounds : Rect := ⟨100, 100, 980, 200⟩

def defaultScreen : ScreenSize := ⟨1080, 2340⟩

namespace Synthetic

def setting (key value : String) : String :=
  " " ++ key ++ "=\"" ++ String.ofList (Xml.Entity.escape value.toList) ++ "\""

def settings (text resourceId className app contentDesc clickable bounds : String) : String :=
  setting "index" "0" ++ setting "text" text ++ setting "resource-id" resourceId ++
    setting "class" className ++ setting "package" app ++ setting "content-desc" contentDesc ++
    setting "clickable" clickable ++ setting "enabled" "true" ++ setting "bounds" bounds

def frame (app : String) (screen : ScreenSize) : String :=
  settings "" "" "android.widget.FrameLayout" app "" "false"
    ("[0,0][" ++ toString screen.width ++ "," ++ toString screen.height ++ "]")

def target (l : Locator) (app : String) : String :=
  settings (l.text.getD "") (l.resourceId.getD "") (l.className.getD "android.widget.TextView") app
    (l.contentDesc.getD "") "true" (l.bounds.getD defaultBounds).render

end Synthetic

def syntheticHierarchy (step : Step) (app : String) (screen : ScreenSize) : String :=
  Xml.Repair.declaration ++ "\n<hierarchy rotation=\"0\">\n  <node" ++ Synthetic.frame app screen ++
    ">\n    <node" ++ Synthetic.target step.locator app ++ "/>\n  </node>\n</hierarchy>\n"

end Replay.Recovery
