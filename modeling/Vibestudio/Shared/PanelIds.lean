import Vibestudio.Js.Json
import Vibestudio.Shared.PanelLease

/-!
# Panel ids

`packages/shared/src/panel/idValues.ts`: the ids of slots and of entities are told apart by their prefix.
-/

namespace Vibestudio.Shared

open Js

def PANEL_SLOT_PREFIX : JsString := lit "panel:tree/"

def PANEL_ENTITY_PREFIX : JsString := lit "panel:nav-"

def isPanelSlotId (value : JsString) : Bool := decide (PANEL_SLOT_PREFIX <+: value)

def isPanelEntityId (value : JsString) : Bool := decide (PANEL_ENTITY_PREFIX <+: value)

def asPanelSlotId (value : JsString) : Except JsString PanelSlotId :=
  if isPanelSlotId value then .ok value
  else .error (lit "Not a panel slot id (expected \"" ++ PANEL_SLOT_PREFIX ++ lit "…\", got " ++ quote value ++
    lit "). Slot ids name a tree position; a nav/entity id (\"" ++ PANEL_ENTITY_PREFIX ++
    lit "…\") or other id must " ++
    lit "be mapped to its slot first (resolveOwningPanelSlot / workspace-state slot.resolveByEntity).")

def asPanelEntityId (value : JsString) : Except JsString PanelEntityId :=
  if isPanelEntityId value then .ok value
  else .error (lit "Not a panel entity id (expected \"" ++ PANEL_ENTITY_PREFIX ++ lit "…\", got " ++ quote value ++
    lit "). Entity/nav ids name a live runtime instance; a slot id (\"" ++ PANEL_SLOT_PREFIX ++
    lit "…\") must not be " ++ lit "passed here.")

end Vibestudio.Shared
