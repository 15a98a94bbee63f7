import RemoteCodex.Lib.Fallible
import RemoteCodex.Lib.JsText
import RemoteCodex.Core.MediaWire

namespace RemoteCodex
set_option autoImplicit true
open Fallible
namespace GuiInput

inductive NativeSource where
  | window (handle : String) (pid : UInt32) (created : String)
  | monitor (handle device : String)
  deriving DecidableEq

structure LocalSource where
  native : NativeSource
  label : String
  rect : Rect
  deriving DecidableEq

/-- The flags of a mouse event. A move is absolute, on the virtual desktop. -/
inductive MouseFlag where
  | move
  | wheel
  | leftDown
  | leftUp
  | middleDown
  | middleUp
  | rightDown
  | rightUp
  deriving DecidableEq

/-- `INPUT` -/
inductive Input where
  | mouse (flag : MouseFlag) (dx dy : Int) (data : Nat)
  | key (scan : UInt16) (extended down unicode : Bool)
  deriving DecidableEq

/-- A scan code, and whether it is an extended one. -/
abbrev Key := UInt16 × Bool

/-- The sets have their elements once each, in any order. -/
structure InputBackend where
  source : LocalSource
  desktop : Rect
  lastFrame : Nat
  keys : List Key
  buttons : List UInt8
  enabled : Bool

/-- What was sent, and whether all of it was taken. A disarm comes with its own attempts. -/
inductive Event where
  | sent (inputs : List Input) (ok : Bool)
  | disarmed (attempts : List (List Input × Bool))
  deriving DecidableEq

/-- The backend, the number of calls to the system so far, and the record. -/
structure State where
  backend : InputBackend
  calls : Nat
  log : List Event

/-- What the system answers to its calls, by their number; times are in nanoseconds. `allowed` is
the callback of `apply`, and `map` and `absolute` are the methods of `Rect` in floating point. -/
structure Os where
  now : Nat → Nat
  inputDesktopAvailable : Nat → Bool
  validateSource : Nat → LocalSource → Except String Rect
  virtualDesktop : Nat → Except String Rect
  foregroundWindow : Nat → Option Nat
  windowProcess : Nat → Nat → UInt32
  guiIntegrityPermitted : Nat → UInt32 → Except String Unit
  rootWindowFromPoint : Nat → Int × Int → Option Nat
  sendInput : Nat → List Input → Nat
  allowed : Nat → Bool
  map : Rect → F64 → F64 → Except String (Int × Int)
  absolute : Rect → Int × Int → Except String (Int × Int)
  drainKeys : Nat → List Key → List Key
  drainButtons : Nat → List UInt8 → List UInt8
  drainKeys_perm : ∀ n l, (drainKeys n l).Perm l
  drainButtons_perm : ∀ n l, (drainButtons n l).Perm l

abbrev Gui (α : Type) := Prog State String α

def ask (answer : Nat → ρ) : Gui ρ := do
  let s ← get
  set { s with calls := s.calls + 1 }
  return answer s.calls

def record (e : Event) : Gui Unit := modify fun s => { s with log := s.log ++ [e] }

def update (f : InputBackend → InputBackend) : Gui Unit :=
  modify fun s => { s with backend := f s.backend }

/-- `str::parse::<u64>`; its errors are not told apart. -/
def parseHandle (handle : String) : Except String Nat :=
  match parseUnsigned (2 ^ 64 - 1) handle.toList with
  | some n => .ok n
  | none => .error "invalid digit found in string"

def buttonFlag : UInt8 → Bool → Except String MouseFlag
  | 0, true => .ok .leftDown
  | 0, false => .ok .leftUp
  | 1, true => .ok .middleDown
  | 1, false => .ok .middleUp
  | 2, true => .ok .rightDown
  | 2, false => .ok .rightUp
  | _, _ => .error "Unsupported mouse button"

variable (os : Os)

/-- The check that a selected window is the one that is met. -/
def expectWindow (native : NativeSource) (met : Nat) (text : String) : Gui Unit :=
  match native with
  | .window handle _ _ => do
    let h ← ofExcept (parseHandle handle)
    bailIf (met ≠ h) text
  | .monitor _ _ => return ()

def permitted (window : Nat) : Gui Unit := do
  let pid ← ask fun n => os.windowProcess n window
  let permitted ← ask fun n => os.guiIntegrityPermitted n pid
  ofExcept permitted

def frame : Gui Unit := do
  let now ← ask os.now
  update fun b => { b with lastFrame := now }

def check : Gui Unit := do
  let s ← get
  let b := s.backend
  let now ← ask os.now
  bailIf (500 * 1000000 < now - b.lastFrame) "Frame stale or desktop locked"
  let available ← ask os.inputDesktopAvailable
  bailIf (available = false) "Frame stale or desktop locked"
  let source ← ask fun n => os.validateSource n b.source
  let rect ← ofExcept source
  bailIf (rect ≠ b.source.rect) "Geometry changed"
  let virtual ← ask os.virtualDesktop
  let desktop ← ofExcept virtual
  bailIf (desktop ≠ b.desktop) "Geometry changed"
  match ← ask os.foregroundWindow with
  | none => throw "No foreground target"
  | some fg =>
    expectWindow b.source.native fg "Selected window is not foreground; focus is never stolen"
    permitted os fg

def arm : Gui Unit := do
  check os
  update fun b => { b with enabled := true }

/-- `SendInput`, and whether it has taken everything. -/
def sendInput (inputs : List Input) : Gui Bool := do
  let n ← ask fun k => os.sendInput k inputs
  return n == inputs.length

def send (inputs : List Input) : Gui Unit := do
  let ok ← sendInput os inputs
  record (.sent inputs ok)
  bailIf (ok = false) "SendInput partial/failed; never replay"

def releaseKey (k : Key) : Gui (List Input × Bool) := do
  let inputs := [Input.key k.1 k.2 false false]
  let ok ← sendInput os inputs
  return (inputs, ok)

def releaseButton (button : UInt8) : Gui (List (List Input × Bool)) :=
  match buttonFlag button false with
  | .ok flag => do
    let inputs := [Input.mouse flag 0 0 0]
    let ok ← sendInput os inputs
    return [(inputs, ok)]
  | .error _ => return []

def releaseInjected : Gui (List (List Input × Bool)) := do
  let s ← get
  let keys ← ask fun n => os.drainKeys n s.backend.keys
  update fun b => { b with keys := [] }
  let released ← keys.mapM (releaseKey os)
  let buttons ← ask fun n => os.drainButtons n s.backend.buttons
  update fun b => { b with buttons := [] }
  let more ← buttons.mapM (releaseButton os)
  return released ++ more.flatten

def disarm : Gui Unit := do
  update fun b => { b with enabled := false }
  let attempts ← releaseInjected os
  record (.disarmed attempts)

def checkLive : Gui Unit := do
  match ← attempt (check os) with
  | .ok () => return ()
  | .error e =>
    disarm os
    throw e

def moveTo (x y : F64) : Gui Unit := do
  let s ← get
  let b := s.backend
  let p ← ofExcept (os.map b.source.rect x y)
  match ← ask fun n => os.rootWindowFromPoint n p with
  | none => throw "Point has no target"
  | some h =>
    permitted os h
    expectWindow b.source.native h "Selected window is covered by another window"
    let a ← ofExcept (os.absolute b.desktop p)
    send os [.mouse .move a.1 a.2 0]

def expectAllowed (text : String) : Gui Unit := do
  let allowed ← ask os.allowed
  bailIf (allowed = false) text

def insertOrRemove [BEq α] (down : Bool) (a : α) (l : List α) : List α :=
  if down then l.insert a else l.filter (· != a)

/-- Ctrl and Alt are held, on either side. -/
def secureHeld (keys : List Key) : Bool :=
  (keys.any fun k => k.1 == 29) && keys.any fun k => k.1 == 56

def typeUnit (c : UInt16) : Gui Unit := do
  expectAllowed os "Text interrupted by local input"
  checkLive os
  let down := Input.key c false true true
  let up := Input.key c false false true
  match ← attempt (send os [down, up]) with
  | .ok () => return ()
  | .error e =>
    let _ ← (attempt (send os [up]) : Gui (Except String Unit))
    throw e

/-- The closure of `apply`. -/
def perform : GuiAction → Gui Unit
  | .move x y => moveTo os x y
  | .button x y button down => do
    moveTo os x y
    expectAllowed os "Input revoked before click"
    let flag ← ofExcept (buttonFlag button down)
    send os [.mouse flag 0 0 0]
    update fun b => { b with buttons := insertOrRemove down button b.buttons }
  | .wheel x y delta => do
    moveTo os x y
    expectAllowed os "Input revoked before wheel"
    send os [.mouse .wheel 0 0 (delta % 2 ^ 32).toNat]
  | .key scan extended down => do
    let s ← get
    bailIf (down ∧ scan = 83 ∧ extended ∧ secureHeld s.backend.keys)
      "Secure attention sequence not supported"
    expectAllowed os "Input revoked before key"
    send os [.key scan extended down false]
    update fun b => { b with keys := insertOrRemove down (scan, extended) b.keys }
  | .text text => (Js.utf16 text.toList).forM (typeUnit os)

def apply (a : GuiAction) : Gui Unit := do
  let s ← get
  bailIf (s.backend.enabled = false) "GUI not armed or locally revoked"
  expectAllowed os "GUI not armed or locally revoked"
  ofExcept a.validate
  checkLive os
  match ← attempt (perform os a) with
  | .ok () => return ()
  | .error e =>
    disarm os
    throw e

/-- `InputBackend::new`, at the time `now`. -/
def new (source : LocalSource) (virtualDesktop : Except String Rect) (now : Nat) :
    Except String State :=
  virtualDesktop.map fun desktop => ⟨⟨source, desktop, now - 5 * 1000000000, [], [], false⟩, 0, []⟩

/-- The methods of the backend; a drop disarms. -/
inductive Op where
  | frame
  | arm
  | checkLive
  | disarm
  | apply (a : GuiAction)

def Op.run : Op → Gui Unit
  | .frame => GuiInput.frame os
  | .arm => GuiInput.arm os
  | .checkLive => GuiInput.checkLive os
  | .disarm => GuiInput.disarm os
  | .apply a => GuiInput.apply os a

/-- The calls of the methods one after the other, whether or not they fail. -/
def run (s : State) : List Op → State
  | [] => s
  | op :: ops => run (exec (op.run os) s).2 ops

end GuiInput
end RemoteCodex
