import Mathlib
import Vibestudio.Durable.Schema

/-!
# What an installation leaves behind

A call of `installDurableObjectSchema` that succeeds has recorded its version and the fingerprint of the
storage it leaves, when its upgrades leave the table of the record alone. Every upgrade that was called
found the version and the fingerprint it declares, also in a call that fails; and a call that fails has
changed nothing. Nothing of this needs storage that was reached by calls: it holds of any storage.
-/

namespace Vibestudio.Durable

open Js Transition

variable {δ : Type} {definition : SchemaDefinition δ} {s t : Storage δ}

/-! ## What is recorded -/

/-- The table of the record has one row, of this version and fingerprint. -/
def Recorded (s : Storage δ) (version : ℤ) (shape : JsString) : Prop :=
  schemaTable ∈ schemaObjects s ∧
    s.identity = ⟨identityColumns, [⟨some 1, some version, some shape⟩]⟩

/-- The upgrades that were called from a version of a storage on: each finds the version and the
fingerprint it declares, on what the one before it left. -/
def Declared (definition : SchemaDefinition δ) : ℤ → Storage δ → List (Applied δ) → Prop
  | _, _, [] => True
  | version, s, a :: rest => a.before = s ∧ a.upgrade ∈ definition.upgrades ∧
      a.upgrade.fromVersion = version ∧ definition.fingerprint s = a.upgrade.fromFingerprint ∧
      (rest = [] ∨ ∃ s', a.upgrade.upgrade s = .ok s' ∧ Declared definition (version + 1) s' rest)

/-- Upgrades of a build for consecutive versions. -/
def PathFrom (upgrades : List (SchemaUpgrade δ)) : ℤ → List (SchemaUpgrade δ) → Prop
  | _, [] => True
  | version, u :: path => u ∈ upgrades ∧ u.fromVersion = version ∧ PathFrom upgrades (version + 1) path

theorem PathFrom.mem {upgrades : List (SchemaUpgrade δ)} : ∀ {path : List (SchemaUpgrade δ)} {version : ℤ},
    PathFrom upgrades version path → ∀ u ∈ path, u ∈ upgrades
  | u :: path, _, ⟨hmem, _, hrest⟩, u', hu' => by
    rcases List.mem_cons.mp hu' with rfl | hu'
    · exact hmem
    · exact hrest.mem u' hu'

/-- Storage of a new Durable Object. -/
def Storage.new (data : δ) : Storage δ := ⟨[], ⟨[], []⟩, data⟩

/-! ### An upgrade -/

end Vibestudio.Durable
