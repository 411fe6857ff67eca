import Mathlib
import Vibestudio.Js.Map
import Vibestudio.Js.Text

/-!
# Panel leases

The records of `packages/shared/src/panel/panelLease.ts`. Slot and entity ids are branded strings.
-/

namespace Vibestudio.Shared

open Js

abbrev PanelSlotId := JsString

abbrev PanelEntityId := JsString

inductive ClientPlatform where
  | desktop
  | headless
  | mobile
  deriving DecidableEq

structure RuntimeLeaseVersion where
  epoch : JsString
  counter : ℕ
  deriving DecidableEq

structure PanelRuntimeLease where
  slotId : PanelSlotId
  runtimeEntityId : PanelEntityId
  clientSessionId : JsString
  hostConnectionId : JsString
  connectionId : JsString
  holderLabel : JsString
  platform : ClientPlatform
  supportsCdp : Bool
  loadOnLeaseAssignment : Bool
  keepLoaded : Option Bool
  acquiredAt : ℕ
  expiresAt : Option ℕ
  deriving DecidableEq

/-- `Boolean(lease.keepLoaded)`. -/
def PanelRuntimeLease.kept (lease : PanelRuntimeLease) : Bool := lease.keepLoaded.getD false

structure RuntimeLeaseSnapshot where
  version : RuntimeLeaseVersion
  leases : List PanelRuntimeLease

inductive PanelRuntimeLeaseChangedReason where
  | acquired
  | released
  | revoked
  | expired
  | retired
  deriving DecidableEq

structure PanelRuntimeLeaseChangedEvent where
  version : RuntimeLeaseVersion
  slotId : PanelSlotId
  runtimeEntityId : PanelEntityId
  previous : Option PanelRuntimeLease
  next : Option PanelRuntimeLease
  reason : PanelRuntimeLeaseChangedReason
  deriving DecidableEq

/-- A change of the table of the leases by slot. -/
def PanelRuntimeLeaseChangedEvent.change (event : PanelRuntimeLeaseChangedEvent)
    (leases : JsMap PanelSlotId PanelRuntimeLease) : JsMap PanelSlotId PanelRuntimeLease :=
  match event.next with
  | some lease => leases.set event.slotId lease
  | none => leases.delete event.slotId

theorem PanelRuntimeLeaseChangedEvent.get_change (event : PanelRuntimeLeaseChangedEvent)
    (leases : JsMap PanelSlotId PanelRuntimeLease) (slotId : PanelSlotId) :
    (event.change leases).get slotId = if slotId = event.slotId then event.next else leases.get slotId := by
  unfold PanelRuntimeLeaseChangedEvent.change
  cases event.next with
  | some lease => exact JsMap.get_set leases event.slotId slotId lease
  | none => exact JsMap.get_delete leases event.slotId slotId

end Vibestudio.Shared
