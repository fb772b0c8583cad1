/-
Zesterm.App.Tabs — the tab strip of a window: `zest-app`'s `tabs.rs`.

A tab is its primary session and the panes beside it, each a session or an
open file. What a session is, its size, a tab's profile and the kill or
detach of what is closed are left out, and so is the dial that gives a
connecting tab its address. An operation that answers `false` when nothing
changed gives `none`, or the strip as it was.
-/
import Zesterm.Mesh.Connect

namespace Zesterm

namespace Strip

/-! ## Panes -/

/-- What a split pane holds. -/
inductive PaneContent where
  | session
  | editor
  deriving DecidableEq

/-- One extra pane of a split tab. -/
structure SplitPane where
  addr : SessionAddr
  content : PaneContent
  isLocal : Bool
  dead : Bool
  connecting : Bool
  deriving DecidableEq

def SplitPane.isSession (p : SplitPane) : Bool := p.content == .session

/-! ## Tabs -/

structure Tab where
  addr : SessionAddr
  panes : List SplitPane
  /-- Which pane the keyboard is in; `0` is the primary. -/
  focus : Nat
  isLocal : Bool
  dead : Bool
  connecting : Bool
  deriving DecidableEq

/-- Edit the first element that is looked for: what `iter_mut().find` leads to. -/
def editFirst {α : Type} (p : α → Bool) (f : α → α) : List α → List α
  | [] => []
  | x :: xs => if p x then f x :: xs else x :: editFirst p f xs

namespace Tab

/-- A tab on a session that lives. -/
def daemon (addr : SessionAddr) (isLocal : Bool) : Tab :=
  { addr, panes := [], focus := 0, isLocal, dead := false, connecting := false }

def paneCount (t : Tab) : Nat := 1 + t.panes.length

/-- Pane `i`'s address; an index past the panes reads as the primary. -/
def paneAddr (t : Tab) : (i : Nat) → SessionAddr
  | 0 => t.addr
  | j + 1 => ((t.panes[j]?).map (·.addr)).getD t.addr

def focusedAddr (t : Tab) : SessionAddr := t.paneAddr t.focus

/-- Move the keyboard to pane `i`. -/
def focusPane (t : Tab) (i : Nat) : Tab :=
  if t.paneCount ≤ i ∨ i = t.focus then t else { t with focus := i }

/-- Move the keyboard one pane right or left, wrapping. -/
def cycleFocus (t : Tab) (delta : Int) : Tab :=
  if t.paneCount < 2 then t
  else t.focusPane (((t.focus : Int) + delta) % t.paneCount).toNat

/-- Append a pane and give it the keyboard: `adopt_pane`. -/
def adoptPane (t : Tab) (pane : SplitPane) : Tab :=
  { t with panes := t.panes ++ [pane], focus := t.paneCount }

/-- Close the focused pane of a split tab. -/
def closeFocusedPane (t : Tab) : Option Tab :=
  if t.panes.isEmpty then none
  else if t.focus = 0 then
    -- the promotion has to find a pane that is a session
    match t.panes.findIdx? SplitPane.isSession with
    | none => none
    | some j =>
      (t.panes[j]?).map fun next =>
        { t with
          addr := next.addr
          isLocal := next.isLocal
          dead := next.dead
          connecting := next.connecting
          panes := t.panes.eraseIdx j }
  else some { t with panes := t.panes.eraseIdx (t.focus - 1), focus := t.focus - 1 }

/-- Drop the pane whose shell has ended. -/
def removeGonePane (t : Tab) (addr : SessionAddr) : Option Tab :=
  (t.panes.findIdx? fun p => p.addr = addr).map fun j =>
    { t with
      panes := t.panes.eraseIdx j
      focus := if t.focus > j then t.focus - 1 else t.focus }

/-- Mark a pane ended; it stays put. -/
def endPane (t : Tab) (addr : SessionAddr) : Tab :=
  { t with panes := editFirst (fun p => p.addr = addr) (fun p => { p with dead := true }) t.panes }

end Tab

/-! ## The strip -/

inductive AppTab where
  | settings
  | profiles
  deriving DecidableEq

/-- The Settings tab's address. -/
def settingsAddr : SessionAddr := ⟨⟨Vector.replicate 32 0⟩, 0xFFFFFFFFFFFFFFFF⟩

/-- The Profiles tab's. -/
def profilesTabAddr : SessionAddr := ⟨⟨Vector.replicate 32 0⟩, 0xFFFFFFFFFFFFFFFE⟩

structure TabStrip where
  tabs : List Tab
  active : Nat
  settingsOpen : Bool
  profilesOpen : Bool
  /-- Which app tab holds the keyboard, if either. -/
  activeApp : Option AppTab
  deriving DecidableEq

namespace TabStrip

def default : TabStrip :=
  { tabs := [], active := 0, settingsOpen := false, profilesOpen := false, activeApp := none }

def activeTab (s : TabStrip) : Option Tab := s.tabs[s.active]?

def openSettings (s : TabStrip) : TabStrip :=
  { s with settingsOpen := true, activeApp := some .settings }

def closeSettings (s : TabStrip) : TabStrip :=
  { s with
    settingsOpen := false
    activeApp := if s.activeApp = some .settings then none else s.activeApp }

def openProfiles (s : TabStrip) : TabStrip :=
  { s with profilesOpen := true, activeApp := some .profiles }

def closeProfiles (s : TabStrip) : TabStrip :=
  { s with
    profilesOpen := false
    activeApp := if s.activeApp = some .profiles then none else s.activeApp }

/-- Index into the drawn tabs of the one that is lit. -/
def displayActive (s : TabStrip) : Nat :=
  match s.activeApp with
  | some .profiles => s.tabs.length
  | some .settings => s.tabs.length + s.profilesOpen.toNat
  | none => s.active

def displayLen (s : TabStrip) : Nat :=
  s.tabs.length + s.profilesOpen.toNat + s.settingsOpen.toNat

/-- Add a tab and make it active. -/
def push (s : TabStrip) (tab : Tab) : TabStrip :=
  { s with tabs := s.tabs ++ [tab], active := s.tabs.length, activeApp := none }

/-- Add a tab without taking the keyboard. -/
def pushBackground (s : TabStrip) (tab : Tab) : TabStrip := { s with tabs := s.tabs ++ [tab] }

def activate (s : TabStrip) (index : Nat) : TabStrip :=
  if s.tabs.length ≤ index ∨ index = s.active ∧ s.activeApp = none then s
  else { s with activeApp := none, active := index }

def activateApp (s : TabStrip) (isOpen : Bool) (tab : AppTab) : TabStrip :=
  if !isOpen ∨ s.activeApp = some tab then s else { s with activeApp := some tab }

def activateAddr (s : TabStrip) (addr : SessionAddr) : TabStrip :=
  if addr = settingsAddr then s.activateApp s.settingsOpen .settings
  else if addr = profilesTabAddr then s.activateApp s.profilesOpen .profiles
  else
    match s.tabs.findIdx? fun t => t.addr = addr with
    | some i => s.activate i
    | none => s

def activateDisplay (s : TabStrip) (index : Nat) : TabStrip :=
  if index = s.displayActive then s
  else if s.tabs.length ≤ index then
    if s.profilesOpen ∧ index - s.tabs.length = 0 then s.activateAddr profilesTabAddr
    else if s.settingsOpen then s.activateAddr settingsAddr
    else s
  else s.activate index

def activateNext (s : TabStrip) : TabStrip :=
  if s.displayLen = 0 then s else s.activateDisplay ((s.displayActive + 1) % s.displayLen)

def activatePrev (s : TabStrip) : TabStrip :=
  if s.displayLen = 0 then s
  else s.activateDisplay ((s.displayActive + s.displayLen - 1) % s.displayLen)

/-- Adopt a session's tab: a live tab with its address refuses it, a dead one
gives its slot. -/
def adopt (s : TabStrip) (tab : Tab) (focus : Bool) : TabStrip :=
  match s.tabs.findIdx? fun t => t.addr = tab.addr with
  | some i =>
    if (s.tabs[i]?).any (·.dead) then
      let revived := { s with tabs := s.tabs.set i tab }
      if focus then revived.activate i else revived
    else if focus then s.activate i
    else s
  | none => if focus then s.push tab else s.pushBackground tab

/-- Remove a tab, keeping the active index on the tab the user was looking at. -/
def close (s : TabStrip) (addr : SessionAddr) : TabStrip :=
  match s.tabs.findIdx? fun t => t.addr = addr with
  | none => s
  | some index =>
    { s with
      tabs := s.tabs.eraseIdx index
      active := if index < s.active ∨ index = s.active ∧ s.active > 0 then s.active - 1
        else s.active }

/-- Edit the active tab. -/
def onActive (s : TabStrip) (f : Tab → Tab) : TabStrip := { s with tabs := s.tabs.modify s.active f }

/-- A shell ended in a split pane: `find_pane_owner`, then `remove_gone_pane`. -/
def removeGonePane (s : TabStrip) (addr : SessionAddr) : TabStrip :=
  { s with
    tabs := editFirst (fun t => t.panes.any (·.addr = addr))
      (fun t => (t.removeGonePane addr).getD t) s.tabs }

/-- A session is gone from its host: its tab or pane stays put, dead. -/
def sessionGone (s : TabStrip) (addr : SessionAddr) : TabStrip :=
  if s.tabs.any (·.addr = addr) then
    { s with tabs := editFirst (fun t => t.addr = addr) (fun t => { t with dead := true }) s.tabs }
  else
    { s with
      tabs := editFirst (fun t => t.panes.any (·.addr = addr)) (fun t => t.endPane addr) s.tabs }

end TabStrip

/-! ## Runs -/

/-- What is done to a strip. -/
inductive Op where
  | adopt (addr : SessionAddr) (isLocal focus : Bool)
  | activate (index : Nat)
  | activateAddr (addr : SessionAddr)
  | activateNext
  | activatePrev
  | close (addr : SessionAddr)
  | openSettings
  | closeSettings
  | openProfiles
  | closeProfiles
  | split (pane : SplitPane)
  | focusPane (i : Nat)
  | cycleFocus (delta : Int)
  | closeFocusedPane
  | removeGonePane (addr : SessionAddr)
  | sessionGone (addr : SessionAddr)
  deriving DecidableEq

def step (s : TabStrip) : Op → TabStrip
  | .adopt addr isLocal focus => s.adopt (.daemon addr isLocal) focus
  | .activate index => s.activate index
  | .activateAddr addr => s.activateAddr addr
  | .activateNext => s.activateNext
  | .activatePrev => s.activatePrev
  | .close addr => s.close addr
  | .openSettings => s.openSettings
  | .closeSettings => s.closeSettings
  | .openProfiles => s.openProfiles
  | .closeProfiles => s.closeProfiles
  | .split pane => s.onActive fun t => t.adoptPane pane
  | .focusPane i => s.onActive fun t => t.focusPane i
  | .cycleFocus delta => s.onActive fun t => t.cycleFocus delta
  | .closeFocusedPane => s.onActive fun t => t.closeFocusedPane.getD t
  | .removeGonePane addr => s.removeGonePane addr
  | .sessionGone addr => s.sessionGone addr

/-- The strip a run of operations leaves. -/
def after (ops : List Op) : TabStrip := ops.foldl step .default

end Strip

end Zesterm
