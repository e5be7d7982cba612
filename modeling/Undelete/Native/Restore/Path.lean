import Mathlib.Algebra.GroupWithZero.Nat
import Undelete.Native.Restore.Journal

/-!
# Safe destination paths

Model of `crates/restore/src/path.rs`: what makes a recovered name safe to create below
the job directory. A `SafeRelativePath` carries the outcome of its check.
-/

namespace Undelete.Restore

def maxSafeComponentUtf16 : Nat := 255
def maxSafePathComponents : Nat := 256
def maxSafePathUtf16 : Nat := 32000
def maxPathEvidenceBytesPerItem : Nat := 256 * 1024

inductive PathSafetyError where
  | emptyPath
  | excessiveDepth (actual maximum : Nat)
  | excessivePathLength (actual maximum : Nat)
  | emptyComponent (index : Nat)
  | traversal (index : Nat)
  | pathInjection (index : Nat)
  | forbiddenCharacter (index : Nat)
  | controlCharacter (index : Nat)
  | trailingDotOrSpace (index : Nat)
  | reservedWindowsName (index : Nat)
  | excessiveComponentLength (index actual maximum : Nat)
  | evidenceBudgetExceeded (actual maximum : Nat)
deriving DecidableEq, Repr

/-! ## Components -/

/-- `value.encode_utf16().count()`. -/
def utf16Count (value : List Char) : Nat :=
  (value.map fun c => if c.toNat < 0x10000 then 1 else 2).sum

/-- `char::to_uppercase`, as far as it yields the letters of the device names: besides the
    ASCII letters only the dotless i and the long s become such a letter. -/
def toUppercase (c : Char) : Char :=
  if c = 'ı' then 'I' else if c = 'ſ' then 'S' else c.toUpper

def isNumberedDevice (stem device : List Char) : Bool :=
  match stem.splitAt 3 with
  | (name, [suffix]) => name == device && "123456789¹²³".toList.contains suffix
  | _ => false

def isReservedWindowsName (value : List Char) : Bool :=
  let stem := (value.takeWhile (· ≠ '.')).map toUppercase
  ["CON", "PRN", "AUX", "NUL", "CONIN$", "CONOUT$"].any (·.toList == stem) ||
    isNumberedDevice stem "COM".toList || isNumberedDevice stem "LPT".toList

def isControl (c : Char) : Bool := c.toNat ≤ 0x1f || c.toNat = 0x7f

def validateComponent (value : List Char) (index : Nat) : Except PathSafetyError Unit := do
  if value.isEmpty then
    throw (.emptyComponent index)
  if value = ".".toList ∨ value = "..".toList then
    throw (.traversal index)
  if value.contains '/' ∨ value.contains '\\' then
    throw (.pathInjection index)
  if value.any isControl then
    throw (.controlCharacter index)
  if value.any ("<>:\"|?*".toList.contains ·) then
    throw (.forbiddenCharacter index)
  if value.getLast? = some '.' ∨ value.getLast? = some ' ' then
    throw (.trailingDotOrSpace index)
  if isReservedWindowsName value then
    throw (.reservedWindowsName index)
  if utf16Count value > maxSafeComponentUtf16 then
    throw (.excessiveComponentLength index (utf16Count value) maxSafeComponentUtf16)

/-! ## Paths -/

def validateDepth (componentCount : Nat) : Except PathSafetyError Unit := do
  if componentCount = 0 then
    throw .emptyPath
  if componentCount > maxSafePathComponents then
    throw (.excessiveDepth componentCount maxSafePathComponents)

def checkedPathLength (current componentLen index : Nat) : Except PathSafetyError Nat := do
  let separator := if index ≠ 0 then 1 else 0
  let actual ← okOr ((U64.checkedAdd current separator).bind fun value =>
    U64.checkedAdd value componentLen) (.excessivePathLength (2 ^ 64 - 1) maxSafePathUtf16)
  if actual > maxSafePathUtf16 then
    throw (.excessivePathLength actual maxSafePathUtf16)
  return actual

/-- The loop of `try_from_components`, at the component `index`. -/
def checkComponents : List String → Nat → Nat → Except PathSafetyError Unit
  | [], _, _ => .ok ()
  | component :: components, index, totalUtf16 => do
    validateComponent component.toList index
    let totalUtf16 ← checkedPathLength totalUtf16 (utf16Count component.toList) index
    checkComponents components (index + 1) totalUtf16

/-- The checks of `SafeRelativePath::try_from_components`. -/
def checkPath (components : List String) : Except PathSafetyError Unit := do
  validateDepth components.length
  checkComponents components 0 0

structure SafeRelativePath where
  components : List String
  safe : checkPath components = .ok ()
deriving DecidableEq

namespace SafeRelativePath

def tryFromComponents (components : List String) : Except PathSafetyError SafeRelativePath :=
  match h : checkPath components with
  | .ok () => .ok ⟨components, h⟩
  | .error e => .error e

def toSlashString (path : SafeRelativePath) : String := "/".intercalate path.components

/-- The last component; a safe path has one. -/
def fileName (path : SafeRelativePath) : String := path.components.getLastD ""

def parentComponents (path : SafeRelativePath) : List String := path.components.dropLast

end SafeRelativePath

/-- A path and the JSON text that says which components were replaced. -/
structure DerivedSafePath where
  path : SafeRelativePath
  evidenceJson : String
deriving DecidableEq

/-! ## Derivation from recovered names -/

structure PathSubstitution where
  componentIndex : Nat
  original : String
  replacement : String
  reason : PathSafetyError
deriving DecidableEq

structure PathEvidence where
  version : Nat
  substitutions : List PathSubstitution
deriving DecidableEq

/-- SHA-256 and `serde_json`, as the derivation of a path uses them. -/
structure PathEnv where
  sha256 : Bytes → Digest
  evidenceToString : PathEvidence → String

def fallbackComponent (env : PathEnv) (original : String) : String :=
  "recovered-" ++ hexLower (env.sha256 (Bytes.ofString original)).toList

/-- The loop of `derive_for_recovery`, at the component `index`. -/
def deriveComponents (env : PathEnv) : List String → Nat → Nat → Nat →
    Except PathSafetyError (List String × List PathSubstitution)
  | [], _, _, _ => .ok ([], [])
  | original :: originals, index, totalUtf16, preservedOriginalBytes => do
    match validateComponent original.toList index with
    | .ok () =>
      let totalUtf16 ← checkedPathLength totalUtf16 (utf16Count original.toList) index
      let (components, substitutions) ←
        deriveComponents env originals (index + 1) totalUtf16 preservedOriginalBytes
      return (original :: components, substitutions)
    | .error reason =>
      let preservedOriginalBytes ←
        okOr (U64.checkedAdd preservedOriginalBytes original.utf8ByteSize)
          (.evidenceBudgetExceeded (2 ^ 64 - 1) maxPathEvidenceBytesPerItem)
      if preservedOriginalBytes > maxPathEvidenceBytesPerItem then
        throw (.evidenceBudgetExceeded preservedOriginalBytes maxPathEvidenceBytesPerItem)
      let replacement := fallbackComponent env original
      let totalUtf16 ← checkedPathLength totalUtf16 (utf16Count replacement.toList) index
      let (components, substitutions) ←
        deriveComponents env originals (index + 1) totalUtf16 preservedOriginalBytes
      return (replacement :: components,
        { componentIndex := index, original, replacement, reason } :: substitutions)

/-- `derive_for_recovery`. The loop has checked every component and the length; building the
    path checks them once more. -/
def deriveForRecovery (env : PathEnv) (recoveredParents : List String) (recoveredName : String) :
    Except PathSafetyError DerivedSafePath := do
  validateDepth (recoveredParents.length + 1)
  let (components, substitutions) ←
    deriveComponents env (recoveredParents ++ [recoveredName]) 0 0 0
  let evidenceJson := env.evidenceToString { version := 1, substitutions }
  if evidenceJson.utf8ByteSize > maxPathEvidenceBytesPerItem then
    throw (.evidenceBudgetExceeded evidenceJson.utf8ByteSize maxPathEvidenceBytesPerItem)
  let path ← SafeRelativePath.tryFromComponents components
  return { path, evidenceJson }

end Undelete.Restore
